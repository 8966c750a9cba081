/-
DldDriver/Tools/Python.lean

What `tools/trial-remote.py` uses of Python: the values of a JSON document
with their operations, and exceptions.  A function that may raise returns in
`Except PyError`.
-/
import DldDriver.Tools.FileTree
import Mathlib.Data.Rat.Defs

namespace Dld.Trial

open FileTree (Name)

/-- What `json.loads` returns. -/
inductive Value
  | none
  | bool (b : Bool)
  | int (i : Int)
  | float (x : ℚ)
  /-- `NaN`, `Infinity` or `-Infinity`. -/
  | nonFinite
  | str (s : Name)
  | list (items : List Value)
  | dict (entries : List (Name × Value))

inductive PyError
  /-- `TrialError(message)` -/
  | trial (message : String)
  | attributeError
  | typeError
  | keyError
  | os (errno : FileTree.Errno)
  /-- Whatever `tarfile`, `json` or reading the launcher raises. -/
  | raised (kind : String)

namespace Value

/-- `v == k`; the number may be written `1.0`, and `true` is equal to 1. -/
def eqInt (v : Value) (k : Int) : Bool :=
  match v with
  | int i => i == k
  | bool b => (if b then 1 else 0) == k
  | float x => x == k
  | _ => false

/-- `v == s` -/
def eqStr (v : Value) (s : Name) : Bool :=
  match v with
  | str s' => s' == s
  | _ => false

/-- `v.get(key, default)` -/
def get (v : Value) (key : Name) (default : Value) : Except PyError Value :=
  match v with
  | dict entries => .ok ((entries.lookup key).getD default)
  | _ => .error .attributeError

/-- `v[key]` -/
def index (v : Value) (key : Name) : Except PyError Value :=
  match v with
  | dict entries =>
    match entries.lookup key with
    | some value => .ok value
    | .none => .error .keyError
  | _ => .error .typeError

def hashable : Value → Bool
  | list _ => false
  | dict _ => false
  | _ => true

/-- The elements of `set(v)`. -/
def elements : Value → Except PyError (List Value)
  | dict entries => .ok (entries.map fun entry => str entry.1)
  | str s => .ok (s.map fun c => str [c])
  | list items => if items.all hashable then .ok items else .error .typeError
  | _ => .error .typeError

end Value

/-- A result comes through every step before it. -/
theorem bind_ok {α β : Type} {x : Except PyError α} {f : α → Except PyError β} {b : β}
    (h : (x >>= f) = .ok b) : ∃ a, x = .ok a ∧ f a = .ok b := by
  rcases x with error | a
  · exact nomatch h
  · exact ⟨a, rfl, h⟩

end Dld.Trial
