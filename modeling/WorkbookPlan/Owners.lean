import WorkbookPlan.Text.Basic

/-! Who owns a field: the step that produced its current value. Fields are found by tokens
`Sheet!Field` too. -/
namespace WorkbookPlan

/-- The name of a step, unique within a plan. -/
abbrev StepId := String

namespace Assoc

variable {α : Type _}

/-- Put a value under a key: in the key's place if it is there, behind all others if not. -/
def put (k : String) (v : α) : List (String × α) → List (String × α)
  | [] => [(k, v)]
  | (k', v') :: rest => if k' = k then (k', v) :: rest else (k', v') :: put k v rest

theorem lookup_put_self (k : String) (v : α) (entries : List (String × α)) :
    (put k v entries).lookup k = some v := by
  induction entries with
  | nil => simp [put]
  | cons e rest ih =>
    obtain ⟨k', v'⟩ := e
    by_cases h : k' = k
    · simp [put, h]
    · have : (k == k') = false := by simpa using Ne.symm h
      simp [put, h, List.lookup_cons, this, ih]

theorem lookup_put_of_ne {k k₀ : String} (h : k₀ ≠ k) (v : α) (entries : List (String × α)) :
    (put k v entries).lookup k₀ = entries.lookup k₀ := by
  have hk₀ : (k₀ == k) = false := by simpa using h
  induction entries with
  | nil => simp [put, List.lookup_cons, hk₀]
  | cons e rest ih =>
    obtain ⟨k', v'⟩ := e
    by_cases hk : k' = k
    · subst hk
      have : (k₀ == k') = false := by simpa using h
      simp [put, List.lookup_cons, this]
    · simp [put, hk, List.lookup_cons, ih]

def keys (entries : List (String × α)) : List String :=
  entries.map (·.1)

/-- A new key goes behind all others, and an old one keeps its place. -/
theorem keys_put (k : String) (v : α) (entries : List (String × α)) :
    keys (put k v entries) = if k ∈ keys entries then keys entries else keys entries ++ [k] := by
  induction entries with
  | nil => simp [put, keys]
  | cons e rest ih =>
    obtain ⟨k', v'⟩ := e
    by_cases h : k' = k
    · simp [put, h, keys]
    · have ih' : (put k v rest).map (·.1) = _ := ih
      simp only [put, h, if_false, keys, List.map_cons, List.mem_cons, Ne.symm h, false_or, ih']
      split <;> simp [*]

theorem nodup_keys_put {k : String} {v : α} {entries : List (String × α)}
    (h : (keys entries).Nodup) : (keys (put k v entries)).Nodup := by
  rw [keys_put]
  split
  · exact h
  · next hk =>
    refine List.nodup_append.2 ⟨h, by simp, fun a ha b hb => ?_⟩
    rw [List.mem_singleton.1 hb]
    rintro rfl
    exact hk ha

theorem mem_put {k : String} {v : α} {entries : List (String × α)} {e : String × α}
    (h : e ∈ put k v entries) : e = (k, v) ∨ e ∈ entries := by
  induction entries with
  | nil => simpa [put] using h
  | cons x rest ih =>
    obtain ⟨k', v'⟩ := x
    by_cases hk : k' = k
    · subst hk
      simp only [put, if_true] at h
      rcases List.mem_cons.1 h with h | h
      · exact .inl h
      · exact .inr (List.mem_cons_of_mem _ h)
    · simp only [put, hk, if_false] at h
      rcases List.mem_cons.1 h with h | h
      · exact .inr (h ▸ List.mem_cons_self)
      · exact (ih h).imp_right (List.mem_cons_of_mem _)

def ofList (entries : List (String × α)) : List (String × α) :=
  entries.foldl (fun acc e => put e.1 e.2 acc) []

theorem nodup_keys_ofList (entries : List (String × α)) : (keys (ofList entries)).Nodup :=
  List.foldlRecOn (motive := fun acc => (keys acc).Nodup) entries _ List.Pairwise.nil
    fun _ h _ _ => nodup_keys_put h

theorem mem_of_mem_ofList {entries : List (String × α)} {e : String × α}
    (h : e ∈ ofList entries) : e ∈ entries := by
  have hall := List.foldlRecOn (motive := fun acc => ∀ e ∈ acc, e ∈ entries) entries
    (fun acc e => put e.1 e.2 acc) (List.forall_mem_nil _) fun acc hacc x hx e he => by
      rcases mem_put he with rfl | he
      · exact hx
      · exact hacc e he
  exact hall e h

theorem mem_of_lookup {k : String} {v : α} {entries : List (String × α)}
    (h : entries.lookup k = some v) : (k, v) ∈ entries := by
  induction entries with
  | nil => simp at h
  | cons e rest ih =>
    obtain ⟨k', v'⟩ := e
    rw [List.lookup_cons] at h
    split at h
    · next hk =>
      have hk : k = k' := by simpa using hk
      cases h
      exact hk ▸ List.mem_cons_self
    · exact List.mem_cons_of_mem _ (ih h)

end Assoc

/-- The owner of each field of each table, in the order of first registration. No table is listed
twice, and no field twice in a table. -/
structure Owners where
  tables : List (String × List (String × StepId))
  nodup_tables : (Assoc.keys tables).Nodup
  nodup_fields : ∀ t ∈ tables, (Assoc.keys t.2).Nodup
  deriving DecidableEq, Repr

namespace Owners

def empty : Owners :=
  ⟨[], List.Pairwise.nil, fun _ h => nomatch h⟩

def fieldsOf (o : Owners) (table : String) : List (String × StepId) :=
  (o.tables.lookup table).getD []

def owner? (o : Owners) (table field : String) : Option StepId :=
  (o.fieldsOf table).lookup field

theorem nodup_fieldsOf (o : Owners) (table : String) : (Assoc.keys (o.fieldsOf table)).Nodup := by
  rw [fieldsOf]
  cases h : o.tables.lookup table with
  | none => exact List.Pairwise.nil
  | some fields => exact o.nodup_fields _ (Assoc.mem_of_lookup h)

/-- Make a step the owner of a field; a field keeps its place. -/
def register (o : Owners) (table field : String) (id : StepId) : Owners where
  tables := Assoc.put table (Assoc.put field id (o.fieldsOf table)) o.tables
  nodup_tables := Assoc.nodup_keys_put o.nodup_tables
  nodup_fields t ht := by
    rcases Assoc.mem_put ht with rfl | ht
    · exact Assoc.nodup_keys_put (o.nodup_fieldsOf table)
    · exact o.nodup_fields t ht

/-- Register, and tell the owner before. -/
def replace (o : Owners) (table field : String) (id : StepId) : Option StepId × Owners :=
  (o.owner? table field, o.register table field id)

/-- The owner of the field of a table that was registered first. It stands for the table. -/
def anyOf? (o : Owners) (table : String) : Option StepId :=
  (o.fieldsOf table).head?.map (·.2)

def contains (o : Owners) (table field : String) : Bool :=
  (o.owner? table field).isSome

def entries (o : Owners) : List (String × String × StepId) :=
  o.tables.flatMap fun (table, fields) => fields.map fun (field, id) => (table, field, id)

def size (o : Owners) : Nat :=
  o.entries.length

def isEmpty (o : Owners) : Bool :=
  o.size == 0

def ofLists (tables : List (String × List (String × StepId))) : Owners where
  tables := Assoc.ofList (tables.map fun (table, fields) => (table, Assoc.ofList fields))
  nodup_tables := Assoc.nodup_keys_ofList _
  nodup_fields t ht := by
    obtain ⟨_, _, rfl⟩ := List.mem_map.1 (Assoc.mem_of_mem_ofList ht)
    exact Assoc.nodup_keys_ofList _

def ofEntries (entries : List (String × String × StepId)) : Owners :=
  entries.foldl (fun o (table, field, id) => o.register table field id) empty

theorem fieldsOf_register_self (o : Owners) (table field : String) (id : StepId) :
    (o.register table field id).fieldsOf table = Assoc.put field id (o.fieldsOf table) := by
  simp [register, fieldsOf, Assoc.lookup_put_self]

theorem fieldsOf_register_of_ne {table t : String} (h : t ≠ table) (o : Owners) (field : String)
    (id : StepId) : (o.register table field id).fieldsOf t = o.fieldsOf t := by
  simp [register, fieldsOf, Assoc.lookup_put_of_ne h]

@[simp] theorem owner?_register_self (o : Owners) (table field : String) (id : StepId) :
    (o.register table field id).owner? table field = some id := by
  rw [owner?, fieldsOf_register_self, Assoc.lookup_put_self]

theorem owner?_register_of_ne {table field t f : String} (h : (t, f) ≠ (table, field)) (o : Owners)
    (id : StepId) : (o.register table field id).owner? t f = o.owner? t f := by
  by_cases ht : t = table
  · subst ht
    have hf : f ≠ field := fun e => h (e ▸ rfl)
    rw [owner?, fieldsOf_register_self, Assoc.lookup_put_of_ne hf, owner?]
  · rw [owner?, fieldsOf_register_of_ne ht, owner?]

end Owners

/-- The two sides of a token `Sheet!Field`, without blanks around them. A token has exactly one
exclamation mark. -/
def splitToken? (token : String) : Option (String × String) :=
  match Text.cutFirst? '!' token.toList with
  | none => none
  | some (sheet, field) =>
    if field.contains '!' then none
    else some (String.ofList (Text.trim sheet), String.ofList (Text.trim field))

namespace Owners

def ofToken? (o : Owners) (token : String) : Option StepId :=
  (splitToken? token).bind fun (sheet, field) => o.owner? sheet field

/-- The owners of the fields that tokens name, each once, in the order of their first tokens. -/
def ofTokens (o : Owners) (tokens : List String) : List StepId :=
  (tokens.filterMap o.ofToken?).eraseDups

/-- The steps that stand for tables, each once, in the order of their first tables. -/
def ofTables (o : Owners) (tables : List String) : List StepId :=
  (tables.filterMap o.anyOf?).eraseDups

end Owners

end WorkbookPlan
