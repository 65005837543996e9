import TcMuzi.Server.Command

/-!
# Handlers that fork

`fork` leaves two processes that both go on with the handler, and `execlp` ends the handler
of its process unless the program cannot be started.  `Runs` lists the calls of a process
and of the processes that it leaves behind; it does not order the calls of one process
against those of another.
-/

namespace TcMuzi
namespace Server

/-- How the handler of a process ends. -/
inductive End (α : Type)
  | returned (a : α)
  | crashed
  -- the process has become another program
  | replaced

/-- A call, by the server process or by one that it forked, and its answer if it returns. -/
structure Event where
  inServer : Bool
  command : Command
  reply : Option command.Reply

/-- What a call can answer in one process.  A read is bounded by its buffer. -/
def Answers : (c : Command) → c.Reply → Prop
  | .sys .fork, _ => False
  | .sys (.execlp _ _ _), _ => False
  | .sys (.readPipe size), output => output.length ≤ size
  | _, _ => True

variable {α : Type}

/-- The calls made from here on, and how the handler ends in this process. -/
inductive Runs : Bool → Handler α → List Event → End α → Prop
  | ret (me : Bool) (a : α) : Runs me (.ret a) [] (.returned a)
  | fail (me : Bool) : Runs me .fail [] .crashed
  | cmd {me : Bool} {c : Command} {k : c.Reply → Handler α} {r : c.Reply} {es : List Event}
      {e : End α} (hr : Answers c r) (hrest : Runs me (k r) es e) :
      Runs me (.cmd c k) (⟨me, c, some r⟩ :: es) e
  | forkFailed {me : Bool} {k : ForkResult → Handler α} {es : List Event} {e : End α}
      (hrest : Runs me (k .error) es e) :
      Runs me (.cmd (.sys .fork) k) (⟨me, .sys .fork, some ForkResult.error⟩ :: es) e
  | fork {me : Bool} {k : ForkResult → Handler α} {es es' : List Event} {e e' : End α}
      (hparent : Runs me (k .parent) es e) (hchild : Runs false (k .child) es' e') :
      Runs me (.cmd (.sys .fork) k) (⟨me, .sys .fork, some ForkResult.parent⟩ :: (es ++ es')) e
  | exec (me : Bool) (file conf arg : Base.CString) (k : Unit → Handler α) :
      Runs me (.cmd (.sys (.execlp file conf arg)) k)
        [⟨me, .sys (.execlp file conf arg), none⟩] .replaced
  | execFailed {me : Bool} {file conf arg : Base.CString} {k : Unit → Handler α} {es : List Event}
      {e : End α} (hrest : Runs me (k ()) es e) :
      Runs me (.cmd (.sys (.execlp file conf arg)) k)
        (⟨me, .sys (.execlp file conf arg), some ()⟩ :: es) e

/-- Every run satisfies `Q`. -/
def AllRuns (me : Bool) (p : Handler α) (Q : List Event → End α → Prop) : Prop :=
  ∀ es e, Runs me p es e → Q es e

variable {me : Bool} {Q : List Event → End α → Prop}

theorem AllRuns.mono {p : Handler α} {Q' : List Event → End α → Prop} (h : AllRuns me p Q)
    (hQ : ∀ es e, Q es e → Q' es e) : AllRuns me p Q' :=
  fun es e hrun => hQ es e (h es e hrun)

end Server
end TcMuzi
