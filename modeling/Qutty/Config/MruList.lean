import Qutty.Lib.Recency

/-!
# The list of sessions by their last use

`QtMRUSessionList` keeps pairs of a session and a host.  `insertSession` puts a pair
in front; `deleteSession` goes through the list by index and removes the pairs of a
session, and then goes on behind the index of the removed pair.  The file the list is
saved to is left out.

`HasLaws` is what the list is for, and holds in every run.  What `deleteSession` is for,
`Deletes`, it does not do where two pairs of the session are neighbours.
-/

namespace Qutty
namespace Config

open Lib

/-- A session and a host. -/
abbrev MruEntry := String × String

/-- `QtMRUSessionList`. -/
structure QtMRUSessionList where
  mru_list : List MruEntry
deriving DecidableEq, Repr

/-- The calls. -/
inductive MruOp where
  | insertSession (sessname hostname : String)
  | deleteSession (sessname : String)
deriving DecidableEq, Repr

namespace QtMRUSessionList

/-- `insertSession`; `erase` is `indexOf` and `remove`. -/
def insertSession (m : QtMRUSessionList) (sessname hostname : String) : QtMRUSessionList :=
  let e := (sessname, hostname)
  let rest := if e ∈ m.mru_list then m.mru_list.erase e else m.mru_list
  { mru_list := e :: rest }

/-- The loop of `deleteSession`. -/
def deleteLoop (sessname : String) (index : Nat) (mru_list : List MruEntry) : List MruEntry :=
  if h : index < mru_list.length then
    let tmp := mru_list.get ⟨index, h⟩
    if tmp.1 = sessname then
      -- the list is shorter now, and the index is the next one all the same
      deleteLoop sessname (index + 1) (mru_list.erase tmp)
    else deleteLoop sessname (index + 1) mru_list
  else mru_list
termination_by mru_list.length - index
decreasing_by
  · have hle : (mru_list.erase (mru_list.get ⟨index, h⟩)).length ≤ mru_list.length :=
      List.erase_sublist.length_le
    omega
  · omega

/-- `deleteSession`. -/
def deleteSession (m : QtMRUSessionList) (sessname : String) : QtMRUSessionList :=
  { mru_list := deleteLoop sessname 0 m.mru_list }

/-- One call. -/
def step (m : QtMRUSessionList) : MruOp → QtMRUSessionList
  | .insertSession sessname hostname => m.insertSession sessname hostname
  | .deleteSession sessname => m.deleteSession sessname

/-- The calls of a run. -/
def run (m : QtMRUSessionList) (ops : List MruOp) : QtMRUSessionList := ops.foldl step m

end QtMRUSessionList

/-- The pair that a call inserts. -/
def MruOp.inserted : MruOp → Option MruEntry
  | .insertSession sessname hostname => some (sessname, hostname)
  | .deleteSession _ => none

namespace QtMRUSessionList

/-- Two pairs of the session are not neighbours. -/
def Apart (sessname : String) (m : QtMRUSessionList) : Prop :=
  m.mru_list.IsChain (fun e e' => ¬ (e.1 = sessname ∧ e'.1 = sessname))

section Calls

variable {m : QtMRUSessionList} {sessname hostname : String}

end Calls

section Runs

variable {initial : List MruEntry}

theorem run_append (m : QtMRUSessionList) (ops : List MruOp) (op : MruOp) :
    m.run (ops ++ [op]) = (m.run ops).step op := by
  simp [run]

end Runs

end QtMRUSessionList

end Config
end Qutty
