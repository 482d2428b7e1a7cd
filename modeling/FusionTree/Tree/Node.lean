import FusionTree.Number.Binary64
import FusionTree.Tree.Key

/-!
# Nodes of the merged tree

A node is a plain value, a list, or a map whose entries keep their order: a new key goes to the
end, a key that is there already keeps its place, and removing a key moves the later ones down. The
tree itself is the entries of its root.

An object may be a plain value, an embedded expression or have a type, besides having properties.
Such a fact is kept among its entries as a tag, and the other two tags are then null.
-/

namespace FusionTree

/-- A value in the merged tree. -/
inductive Node
  | null
  | bool (value : Bool)
  | int (value : Int64)
  | float (value : Binary64)
  | string (value : String)
  | list (items : List Node)
  | map (entries : List (String × Node))
deriving Inhabited

/-- The entries of a map in their order. -/
abbrev Entries := List (String × Node)

namespace Entries

def get? (es : Entries) (key : String) : Option Node :=
  es.lookup key

/-- Puts a node under a key: in the key's place if it has one, at the end otherwise. -/
def insert (es : Entries) (key : String) (node : Node) : Entries :=
  match es with
  | [] => [(key, node)]
  | (k, n) :: rest => if k = key then (key, node) :: rest else (k, n) :: insert rest key node

def erase (es : Entries) (key : String) : Entries :=
  es.filter (·.1 ≠ key)

def keys (es : Entries) : List String :=
  es.map (·.1)

@[simp] theorem get?_nil (key : String) : get? [] key = none := rfl

theorem get?_cons (k : String) (n : Node) (es : Entries) (key : String) :
    get? ((k, n) :: es) key = if k = key then some n else es.get? key := by
  by_cases h : k = key
  · subst h
    simp [get?]
  · have : (key == k) = false := by simpa using fun h' => h h'.symm
    simp [get?, List.lookup_cons, this, h]

@[simp] theorem get?_insert_self (es : Entries) (key : String) (node : Node) :
    (es.insert key node).get? key = some node := by
  induction es with
  | nil => simp [insert, get?_cons]
  | cons entry rest ih =>
    obtain ⟨k, n⟩ := entry
    by_cases h : k = key
    · simp [insert, h, get?_cons]
    · simp [insert, h, get?_cons, ih]

theorem get?_insert_of_ne {es : Entries} {key other : String} {node : Node} (h : other ≠ key) :
    (es.insert key node).get? other = es.get? other := by
  induction es with
  | nil => simp [insert, get?_cons, Ne.symm h]
  | cons entry rest ih =>
    obtain ⟨k, n⟩ := entry
    by_cases hk : k = key
    · simp [insert, hk, get?_cons, Ne.symm h]
    · simp [insert, hk, get?_cons, ih]

@[simp] theorem insert_insert_self (es : Entries) (key : String) (old new : Node) :
    (es.insert key old).insert key new = es.insert key new := by
  induction es with
  | nil => simp [insert]
  | cons entry rest ih =>
    obtain ⟨k, n⟩ := entry
    by_cases h : k = key
    · simp [insert, h]
    · simp [insert, h, ih]

/-- Putting back what is there changes nothing. -/
theorem insert_of_get? {es : Entries} {key : String} {node : Node} (h : es.get? key = some node) :
    es.insert key node = es := by
  induction es with
  | nil => simp at h
  | cons entry rest ih =>
    obtain ⟨k, n⟩ := entry
    by_cases hk : k = key
    · simp_all [insert, get?_cons]
    · simp only [get?_cons, hk, if_false] at h
      simp [insert, hk, ih h]

/-- A key that is there keeps its place. -/
theorem keys_insert_of_mem {es : Entries} {key : String} (node : Node) (h : key ∈ es.keys) :
    (es.insert key node).keys = es.keys := by
  induction es with
  | nil => simp [keys] at h
  | cons entry rest ih =>
    obtain ⟨k, n⟩ := entry
    by_cases hk : k = key
    · simp [insert, hk, keys]
    · have h : key ∈ keys rest := by simpa [keys, Ne.symm hk] using h
      simpa [insert, hk, keys] using ih h

/-- A new key goes to the end. -/
theorem keys_insert_of_not_mem {es : Entries} {key : String} (node : Node) (h : key ∉ es.keys) :
    (es.insert key node).keys = es.keys ++ [key] := by
  induction es with
  | nil => simp [insert, keys]
  | cons entry rest ih =>
    obtain ⟨k, n⟩ := entry
    have hk : k ≠ key := fun hk => h (by simp [keys, hk])
    have h : key ∉ keys rest := fun hm => h (List.mem_cons_of_mem k hm)
    simpa [insert, hk, keys] using ih h

theorem keys_erase (es : Entries) (key : String) :
    (es.erase key).keys = es.keys.filter (· ≠ key) := by
  simp [keys, erase, List.filter_map, Function.comp_def]

@[simp] theorem get?_erase_self (es : Entries) (key : String) : (es.erase key).get? key = none := by
  induction es with
  | nil => simp [erase]
  | cons entry rest ih =>
    obtain ⟨k, n⟩ := entry
    by_cases h : k = key
    · simpa [erase, h] using ih
    · simpa [erase, h, get?_cons] using ih

theorem get?_erase_of_ne {es : Entries} {key other : String} (h : other ≠ key) :
    (es.erase key).get? other = es.get? other := by
  induction es with
  | nil => simp [erase]
  | cons entry rest ih =>
    obtain ⟨k, n⟩ := entry
    by_cases hk : k = key
    · have : k ≠ other := fun h' => h (h'.symm.trans hk)
      simpa [erase, hk, get?_cons, Ne.symm h] using ih
    · by_cases ho : k = other
      · simp [erase, get?_cons, ho, h]
      · simpa [erase, hk, get?_cons, ho] using ih

end Entries

namespace Node

def eelExpression (code : String) : Node :=
  .map [(Key.eel, .string code), (Key.value, .null), (Key.objectType, .null)]

def objectType (name : String) : Node :=
  .map [(Key.objectType, .string name), (Key.value, .null), (Key.eel, .null)]

/-- The entries of an object that is a plain value. -/
def taggedEntries (value : Node) : Entries :=
  [(Key.value, value), (Key.eel, .null), (Key.objectType, .null)]

def taggedValue (value : Node) : Node :=
  .map (taggedEntries value)

def isNull : Node → Bool
  | null => true
  | _ => false

def entries? : Node → Option Entries
  | map es => some es
  | _ => none

def string? : Node → Option String
  | string s => some s
  | _ => none

def get? (n : Node) (key : String) : Option Node :=
  n.entries?.bind (·.get? key)

/-- The plain value that the node stands for: what it is tagged with, or else the node itself. -/
def resolved (n : Node) : Node :=
  match n.get? Key.value with
  | some value => if value.isNull then n else value
  | none => n

/-- Whether an unset has marked the node, so that it inherits nothing. -/
def stopsInheritance (n : Node) : Bool :=
  match n.get? Key.stop with
  | some (bool true) => true
  | _ => false

end Node

/-- The node at a path. Nothing is at the empty path. -/
def Entries.getPath? (es : Entries) : List String → Option Node
  | [] => none
  | key :: rest => rest.foldl (fun node k => node.bind (·.get? k)) (es.get? key)

end FusionTree
