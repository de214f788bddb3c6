import Reckon.Value.Basic
import Std.Data.TreeMap

/-!
Environments bind names to values. Any text may be a name. The bindings are
kept in the order of their names, by code point.
-/

namespace Reckon

/-- Values bound to names. -/
structure Environment where
  bindings : Std.TreeMap String Value

namespace Environment

def empty : Environment := ⟨.empty⟩

instance : Inhabited Environment := ⟨empty⟩

def insert (env : Environment) (name : String) (value : Value) : Environment :=
  ⟨env.bindings.insert name value⟩

def get? (env : Environment) (name : String) : Option Value := env.bindings[name]?

/-- A name has the value it was bound to last; other names keep theirs. -/
theorem get?_insert (env : Environment) (name other : String) (value : Value) :
    (env.insert name value).get? other = if name = other then some value else env.get? other := by
  simp [insert, get?, Std.TreeMap.getElem?_insert]

def contains (env : Environment) (name : String) : Bool := env.bindings.contains name

def size (env : Environment) : Nat := env.bindings.size

/-- Binds names in order, so that a later value of a name replaces an earlier one. -/
def insertAll (env : Environment) (bindings : List (String × Value)) : Environment :=
  bindings.foldl (fun env (name, value) => env.insert name value) env

/-- The environment of some bindings; of two for one name the later counts. -/
def ofList (bindings : List (String × Value)) : Environment := empty.insertAll bindings

/-- The bindings in the order of their names. -/
def toList (env : Environment) : List (String × Value) := env.bindings.toList

/-- Whether two environments bind the same names to values that are equal as values. -/
def equals (a b : Environment) : Bool :=
  a.size == b.size && a.toList.all fun (name, value) =>
    match b.get? name with
    | some other => value.equals other
    | none => false

/-- The environment in which the names of the truth values stand for them, whatever else they
were bound to. -/
def withTruthValues (env : Environment) : Environment :=
  (env.insert "true" (.boolean true)).insert "false" (.boolean false)

end Environment

end Reckon
