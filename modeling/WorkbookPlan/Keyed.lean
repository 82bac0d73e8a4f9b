/-! Lists of key and value, in rising order of the keys. -/
namespace WorkbookPlan

namespace Keyed

variable {α : Type _}

/-- Put a value under a key, in the key's place; a value that is there already gives way. -/
def insert (k : String) (v : α) : List (String × α) → List (String × α)
  | [] => [(k, v)]
  | (k', v') :: rest =>
    if k < k' then (k, v) :: (k', v') :: rest
    else if k = k' then (k, v) :: rest
    else (k', v') :: insert k v rest

/-- All entries in turn; of two with one key the later stays. -/
def ofList (entries : List (String × α)) : List (String × α) :=
  entries.foldl (fun acc e => insert e.1 e.2 acc) []

/-- Keys rise strictly, so each occurs once. -/
def Sorted (entries : List (String × α)) : Prop :=
  entries.Pairwise fun a b => a.1 < b.1

theorem lookup_insert_self (k : String) (v : α) (entries : List (String × α)) :
    (insert k v entries).lookup k = some v := by
  induction entries with
  | nil => simp [insert]
  | cons e rest ih =>
    obtain ⟨k', v'⟩ := e
    simp only [insert]
    split
    · simp
    · split
      · simp
      · next hne =>
        have : (k == k') = false := by simpa using hne
        simp [List.lookup_cons, this, ih]

theorem lookup_insert_of_ne {k k₀ : String} (h : k₀ ≠ k) (v : α) (entries : List (String × α)) :
    (insert k v entries).lookup k₀ = entries.lookup k₀ := by
  have hk : (k₀ == k) = false := by simpa using h
  induction entries with
  | nil => simp [insert, List.lookup_cons, hk]
  | cons e rest ih =>
    obtain ⟨k', v'⟩ := e
    simp only [insert]
    split
    · simp [List.lookup_cons, hk]
    · split
      · next he =>
        subst he
        simp [List.lookup_cons, hk]
      · simp [List.lookup_cons, ih]

theorem mem_insert {k : String} {v : α} {entries : List (String × α)} {e : String × α}
    (h : e ∈ insert k v entries) : e = (k, v) ∨ e ∈ entries := by
  induction entries with
  | nil => simpa [insert] using h
  | cons x rest ih =>
    simp only [insert] at h
    split at h
    · simpa using h
    · split at h
      · rcases List.mem_cons.1 h with h | h
        · exact .inl h
        · exact .inr (List.mem_cons_of_mem _ h)
      · rcases List.mem_cons.1 h with h | h
        · exact .inr (h ▸ List.mem_cons_self)
        · exact (ih h).imp_right (List.mem_cons_of_mem _)

theorem Sorted.insert {entries : List (String × α)} (h : Sorted entries) (k : String) (v : α) :
    Sorted (insert k v entries) := by
  induction entries with
  | nil => simp [Keyed.insert, Sorted]
  | cons e rest ih =>
    obtain ⟨hhead, htail⟩ := List.pairwise_cons.1 h
    simp only [Keyed.insert]
    split
    · next hlt =>
      refine List.pairwise_cons.2 ⟨fun x hx => ?_, h⟩
      rcases List.mem_cons.1 hx with rfl | hx
      · exact hlt
      · exact String.lt_trans hlt (hhead x hx)
    · next hnlt =>
      split
      · next heq =>
        exact List.pairwise_cons.2 ⟨fun x hx => heq ▸ hhead x hx, htail⟩
      · next hne =>
        refine List.pairwise_cons.2 ⟨fun x hx => ?_, ih htail⟩
        rcases mem_insert hx with rfl | hx
        · exact Classical.byContradiction fun hn =>
            hne (String.le_antisymm hn hnlt)
        · exact hhead x hx

theorem sorted_foldl_insert (entries : List (String × α)) {acc : List (String × α)}
    (h : Sorted acc) : Sorted (entries.foldl (fun acc e => insert e.1 e.2 acc) acc) := by
  induction entries generalizing acc with
  | nil => exact h
  | cons e rest ih => exact ih (h.insert e.1 e.2)

theorem sorted_ofList (entries : List (String × α)) : Sorted (ofList entries) :=
  sorted_foldl_insert entries List.Pairwise.nil

end Keyed

/-- A map with text keys, in rising order of the keys. -/
structure KeyedMap (α : Type _) where
  entries : List (String × α)
  sorted : Keyed.Sorted entries
  deriving DecidableEq, Repr

namespace KeyedMap

variable {α : Type _}

def empty : KeyedMap α :=
  ⟨[], List.Pairwise.nil⟩

def get? (m : KeyedMap α) (k : String) : Option α :=
  m.entries.lookup k

/-- A value that is under the key already gives way. -/
def insert (m : KeyedMap α) (k : String) (v : α) : KeyedMap α :=
  ⟨Keyed.insert k v m.entries, m.sorted.insert k v⟩

/-- All entries in turn; of two with one key the later stays. -/
def ofList (entries : List (String × α)) : KeyedMap α :=
  ⟨Keyed.ofList entries, Keyed.sorted_ofList entries⟩

@[simp] theorem get?_insert_self (m : KeyedMap α) (k : String) (v : α) :
    (m.insert k v).get? k = some v :=
  Keyed.lookup_insert_self k v m.entries

theorem get?_insert_of_ne {k k₀ : String} (h : k₀ ≠ k) (m : KeyedMap α) (v : α) :
    (m.insert k v).get? k₀ = m.get? k₀ :=
  Keyed.lookup_insert_of_ne h v m.entries

end KeyedMap

end WorkbookPlan
