import GraphQLEngine.OrderedMap

/-!
# Arenas with keys

An arena keeps values in the order in which they were added, each under a key of its own.  A value
is found by its key or by its index.

    add a key v = .ok (i, b)    →  i = a.size, b.get? key = some v
    add a key v = .error i      →  a.indexOf? key = some i
-/

namespace GraphQLEngine

structure Arena (α : Type u) where
  entries : List (String × α)
  /-- No key is used twice. -/
  distinct : (entries.map Prod.fst).Nodup

namespace Arena

variable {α : Type u}

def empty : Arena α := ⟨[], List.nodup_nil⟩

instance : Inhabited (Arena α) := ⟨empty⟩

def size (a : Arena α) : Nat := a.entries.length

def isEmpty (a : Arena α) : Bool := a.entries.isEmpty

def keys (a : Arena α) : List String := a.entries.map Prod.fst

def values (a : Arena α) : List α := a.entries.map Prod.snd

def get? (a : Arena α) (key : String) : Option α := a.entries.lookup key

def contains (a : Arena α) (key : String) : Bool := a.keys.contains key

def indexOf? (a : Arena α) (key : String) : Option Nat := a.keys.idxOf? key

def atIndex? (a : Arena α) (index : Nat) : Option α := a.values[index]?

/-- The arena with `value` under a new key. -/
def push (a : Arena α) (key : String) (value : α) (fresh : key ∉ a.keys) : Arena α where
  entries := a.entries ++ [(key, value)]
  distinct := by
    rw [List.map_append, List.nodup_append]
    refine ⟨a.distinct, by simp, ?_⟩
    intro x hx y hy h
    simp only [List.map_cons, List.map_nil, List.mem_singleton] at hy
    exact fresh (hy ▸ h ▸ hx)

/-- Add a value under a new key and give its index; the index of the present value if the key is
in use. -/
def add (a : Arena α) (key : String) (value : α) : Except Nat (Nat × Arena α) :=
  if h : key ∈ a.keys then .error (a.keys.idxOf key)
  else .ok (a.size, a.push key value h)

/-! ## Lemmas -/

theorem keys_push (a : Arena α) (key : String) (value : α) (fresh : key ∉ a.keys) :
    (a.push key value fresh).keys = a.keys ++ [key] := by
  simp [keys, push]

theorem mem_keys_of_get? {a : Arena α} {key : String} {v : α} (h : a.get? key = some v) :
    key ∈ a.keys := by
  unfold get? at h
  unfold keys
  generalize a.entries = es at h
  induction es with
  | nil => simp at h
  | cons e rest ih =>
    obtain ⟨k, w⟩ := e
    rw [List.lookup_cons] at h
    by_cases hk : key = k
    · simp [hk]
    · have hb : (key == k) = false := by simpa using hk
      rw [hb] at h
      exact List.mem_cons_of_mem _ (ih h)

theorem get?_of_mem_keys {a : Arena α} {key : String} (h : key ∈ a.keys) :
    ∃ v, a.get? key = some v := by
  unfold keys at h
  unfold get?
  generalize a.entries = es at h
  induction es with
  | nil => cases h
  | cons e rest ih =>
    obtain ⟨k, w⟩ := e
    rw [List.lookup_cons]
    by_cases hk : key = k
    · exact ⟨w, by simp [hk]⟩
    · have hb : (key == k) = false := by simpa using hk
      rw [hb]
      exact ih ((List.mem_cons.mp h).resolve_left hk)

end Arena

end GraphQLEngine
