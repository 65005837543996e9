import TcMuzi.Api.Uses
import TcMuzi.Mysql.Format

/-!
# What the server reads of the handlers' SQL

Strings are printed between quotes as they are.  A statement is read as its format string says
exactly if every string printed into it is harmless.
-/

namespace TcMuzi
namespace Api

open Base Server Lib SqlText

/-- The formats a command prints.  The parameters of a prepared statement are bound to it. -/
def formats : Server.Command → List Mysql.Format
  | .query q => [q.format]
  | .update u => u.formats
  | .execute u => u.formats
  | _ => []

def ReadAsTemplate (c : Server.Command) : Prop := ∀ f ∈ formats c, f.ReadAsTemplate

/-- The strings a command prints into its SQL text. -/
def printed (c : Server.Command) : List (List UInt8) :=
  (formats c).flatMap Mysql.Format.strings

theorem wellFormed_of_formats {c : Server.Command} {f : Mysql.Format} (h : f ∈ formats c) :
    wellFormed f.text.bytes f.args := by
  cases c with
  | query q =>
      obtain rfl := List.mem_singleton.mp h
      exact q.wellFormed_format
  | update u => exact u.wellFormed_formats f h
  | execute u => exact u.wellFormed_formats f h
  | _ => cases h

/-- One statement. -/
theorem command_readAsTemplate_iff (c : Server.Command) :
    ReadAsTemplate c ↔ ∀ arg ∈ printed c, Harmless arg := by
  constructor
  · intro h arg harg
    obtain ⟨f, hf, hmem⟩ := List.mem_flatMap.mp harg
    exact (Mysql.Format.format_readAsTemplate_iff (wellFormed_of_formats hf)).mp (h f hf) arg hmem
  · intro h f hf
    rw [Mysql.Format.format_readAsTemplate_iff (wellFormed_of_formats hf)]
    exact fun arg hmem => h arg (List.mem_flatMap.mpr ⟨f, hf, hmem⟩)

/-- A handler, whatever its request is and the backends answer. -/
theorem readAsTemplate_iff {α : Type} (handler : Handler α) :
    Uses ReadAsTemplate handler ↔ Uses (fun c => ∀ arg ∈ printed c, Harmless arg) handler :=
  ⟨uses_mono fun c => (command_readAsTemplate_iff c).mp,
    uses_mono fun c => (command_readAsTemplate_iff c).mpr⟩

/-- A login looks its user name up as it was sent. -/
theorem login_readAsTemplate_iff (userName pwd : CString) :
    Uses ReadAsTemplate (verifyUserPassword userName pwd) ↔ Harmless userName.bytes := by
  rw [readAsTemplate_iff]
  constructor
  · intro h
    exact (h.2 .conn).1 userName.bytes List.mem_cons_self
  · intro h
    refine uses_withDBConn (fun _ harg => nomatch harg) (fun _ harg => nomatch harg) fun dbConn => ?_
    have hprinted : ∀ arg ∈ printed (.query (.passwordOf userName)), Harmless arg := by
      intro arg harg
      obtain rfl := List.mem_singleton.mp harg
      exact h
    refine uses_bind (uses_onConn ((uses_issue ..).mpr hprinted)) fun resultSet => ?_
    split <;> trivial

/-- With this user name the server reads another condition. -/
theorem not_readAsTemplate_login :
    ¬ Uses ReadAsTemplate (verifyUserPassword (.lit "x' or '1'='1") (.lit "")) := by
  intro h
  have hquery := (h.2 .conn).1 _ List.mem_cons_self
  revert hquery
  decide +kernel

end Api
end TcMuzi
