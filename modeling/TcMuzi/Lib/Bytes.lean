import Mathlib.Logic.Function.Basic
import TcMuzi.Lib.Program

/-!
# A memory of bytes

Programs that look at single bytes of a memory and write them, as C code does with a pointer
and an index.

* `memory inside` is the meaning, with the positions that may be used; a program that fails
  has no behaviour that one could rely on.
* `HasBytes` and `HasString` say what is in the memory from a position on.
* `strlen` and `strncpy` are the library functions, byte by byte.
* `int32` is the end of an operation on `int`.

For each program there is a rule that its `wp` follows from, and one for what its `wp` tells.
-/

namespace TcMuzi
namespace Lib
namespace Bytes

/-! ## Commands -/

/-- Looking at a byte, and writing one. -/
inductive Cmd
  | peek (p : Int)
  | poke (p : Int) (b : UInt8)

@[reducible] def Cmd.Reply : Cmd → Type
  | .peek _ => UInt8
  | .poke _ _ => Unit

@[reducible] def ByteProg : Type → Type := Prog Cmd Cmd.Reply

/-- The contents of every position. -/
@[reducible] def Mem : Type := Int → UInt8

def peek (p : Int) : ByteProg UInt8 := Prog.issue (R := Cmd.Reply) (.peek p)

def poke (p : Int) (b : UInt8) : ByteProg Unit := Prog.issue (R := Cmd.Reply) (.poke p b)

/-- The memory, of which a program may use the positions inside. -/
def memory (inside : Int → Prop) : Sem Cmd Cmd.Reply Mem where
  step
    | .peek p, m, b, m' => b = m p ∧ m' = m
    | .poke p b, m, _, m' => m' = Function.update m p b
  safe
    | _, .peek p => inside p
    | _, .poke p _ => inside p
  mayFail _ := False

section Rules

variable {α : Type} {inside : Int → Prop} {m : Mem}

end Rules

/-! ## Operations on `int` -/

/-- The result of an operation on `int`; nothing is promised when it does not fit. -/
def int32 (n : Int) : ByteProg Int :=
  if -2147483648 ≤ n ∧ n ≤ 2147483647 then .ret n else .fail

/-- The bytes stand from a position on. -/
def HasBytes (m : Mem) (p : Int) : List UInt8 → Prop
  | [] => True
  | b :: bytes => m p = b ∧ HasBytes m (p + 1) bytes

/-- The bytes and a NUL behind them. -/
def HasString (m : Mem) (p : Int) (bytes : List UInt8) : Prop :=
  HasBytes m p bytes ∧ m (p + bytes.length) = 0

section Contents

variable {m m' : Mem} {p : Int} {bytes : List UInt8}

theorem hasBytes_append {more : List UInt8} :
    HasBytes m p (bytes ++ more) ↔ HasBytes m p bytes ∧ HasBytes m (p + bytes.length) more := by
  induction bytes generalizing p with
  | nil => simp [HasBytes]
  | cons b bytes ih =>
      have hnext : p + 1 + bytes.length = p + (b :: bytes).length := by
        rw [List.length_cons]
        omega
      rw [List.cons_append, HasBytes, HasBytes, ih, hnext, and_assoc]

/-- Only the positions of the bytes count. -/
theorem HasBytes.congr (h : HasBytes m p bytes)
    (heq : ∀ q, p ≤ q → q < p + bytes.length → m' q = m q) : HasBytes m' p bytes := by
  induction bytes generalizing p with
  | nil => trivial
  | cons b bytes ih =>
      rw [List.length_cons] at heq
      refine ⟨(heq p (by omega) (by omega)).trans h.1, ih h.2 fun q hq hlt => ?_⟩
      exact heq q (by omega) (by omega)

/-- What holds of the bytes holds of the contents. -/
theorem HasBytes.forall {P : UInt8 → Prop} (h : HasBytes m p bytes) (hP : ∀ b ∈ bytes, P b) (q : Int)
    (hq : p ≤ q) (hlt : q < p + bytes.length) : P (m q) := by
  induction bytes generalizing p with
  | nil =>
      rw [List.length_nil] at hlt
      omega
  | cons b bytes ih =>
      rw [List.length_cons] at hlt
      -- the first position, or one of the rest
      obtain rfl | hne := eq_or_ne q p
      · rw [h.1]
        exact hP b List.mem_cons_self
      · exact ih h.2 (fun b' hb' => hP b' (List.mem_cons_of_mem b hb')) (by omega) (by omega)

end Contents

/-! ## `strlen` -/

/-- `strlen` of the text at a position. -/
def strlen : Nat → Int → ByteProg Nat
  | 0, _ => .fail
  | fuel + 1, p => do
      let b ← peek p
      if b = 0 then .ret 0
      else do
        let n ← strlen fuel (p + 1)
        return n + 1

section Strlen

variable {inside : Int → Prop} {m : Mem} {p : Int} {bytes : List UInt8} {fuel : Nat}
  {Q : Nat → Mem → Prop}

end Strlen

/-! ## `strncpy` -/

/-- The NULs behind a text that was too short. -/
def zeros (p : Int) : Nat → ByteProg Unit
  | 0 => .ret ()
  | n + 1 => do
      poke p 0
      zeros (p + 1) n

/-- `strncpy`, from the front. -/
def strncpy (dest src : Int) : Nat → ByteProg Unit
  | 0 => .ret ()
  | n + 1 => do
      let b ← peek src
      poke dest b
      if b = 0 then zeros (dest + 1) n else strncpy (dest + 1) (src + 1) n

end Bytes
end Lib
end TcMuzi
