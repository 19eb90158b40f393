import Mathlib.Data.List.Induction

/-!
# Maps in the order of insertion

A map kept as a list of entries: a new key goes to the end, a key that is there keeps its
place and takes the new value.
-/

namespace Rukkit.Lib.Entries

variable {α β : Type*} [DecidableEq α]

/-- Inserts a value, replacing that of an entry with the same key. -/
def insert : List (α × β) → α → β → List (α × β)
  | [], key, value => [(key, value)]
  | (k, v) :: entries, key, value =>
      if k = key then (k, value) :: entries else (k, v) :: insert entries key value

/-- The value of the first entry with the key. -/
def get (entries : List (α × β)) (key : α) : Option β :=
  (entries.find? fun entry => entry.1 = key).map Prod.snd

/-- The entries after a sequence of insertions. -/
def insertAll (ops : List (α × β)) : List (α × β) :=
  ops.foldl (fun entries op => insert entries op.1 op.2) []

variable {entries ops : List (α × β)} {key key' : α} {value : β}

theorem keys_insert : (insert entries key value).map Prod.fst =
    if key ∈ entries.map Prod.fst then entries.map Prod.fst
    else entries.map Prod.fst ++ [key] := by
  induction entries with
  | nil => rfl
  | cons entry entries ih =>
      obtain ⟨k, v⟩ := entry
      rw [insert]
      by_cases hkey : k = key
      · rw [if_pos hkey, if_pos (by simp [hkey])]
        rfl
      · rw [if_neg hkey, List.map_cons, ih]
        have hmem : key ∈ List.map Prod.fst ((k, v) :: entries) ↔ key ∈ entries.map Prod.fst := by
          simp [Ne.symm hkey]
        simp only [hmem]
        split <;> rfl

theorem get_insert : get (insert entries key value) key' =
    if key = key' then some value else get entries key' := by
  induction entries with
  | nil => by_cases hkey : key = key' <;> simp [insert, get, hkey]
  | cons entry entries ih =>
      obtain ⟨k, v⟩ := entry
      unfold get at ih
      rw [insert]
      by_cases hkey : k = key
      · subst hkey
        by_cases hkey' : k = key' <;> simp [get, hkey']
      · rw [if_neg hkey]
        by_cases hkey' : k = key'
        · have hne : key ≠ key' := fun h => hkey (hkey'.trans h.symm)
          simp [get, hkey', hne]
        · simp [get, hkey', ih]

theorem insertAll_snoc (op : α × β) :
    insertAll (ops ++ [op]) = insert (insertAll ops) op.1 op.2 := by
  simp [insertAll]

/-- The keys stand in the order of their first insertions. -/
theorem keys_insertAll (ops : List (α × β)) :
    (insertAll ops).map Prod.fst = (ops.map Prod.fst).eraseDups := by
  induction ops using List.reverseRecOn with
  | nil => rfl
  | append_singleton ops op ih =>
      rw [insertAll_snoc, keys_insert, ih, List.map_append, List.eraseDups_append]
      by_cases hkey : op.1 ∈ ops.map Prod.fst
      · rw [if_pos (List.mem_eraseDups.mpr hkey)]
        simp [List.removeAll, hkey]
      · rw [if_neg fun h => hkey (List.mem_eraseDups.mp h)]
        simp [List.removeAll, hkey, List.eraseDups_cons]

/-- A key has the value it was last given. -/
theorem get_insertAll (ops : List (α × β)) (key : α) :
    get (insertAll ops) key = get ops.reverse key := by
  induction ops using List.reverseRecOn with
  | nil => rfl
  | append_singleton ops op ih =>
      rw [insertAll_snoc, get_insert, ih, List.reverse_append]
      by_cases hkey : op.1 = key <;> simp [get, hkey]

end Rukkit.Lib.Entries
