import WorkbookPlan.Json.Decode
import WorkbookPlan.Proofs.Json.Text

/-! Records: each part is found under its key, and the text of a record can be read if those of its
parts can. -/
namespace WorkbookPlan

namespace Keyed

variable {α : Type _}

theorem lookup_foldl_insert (k : String) (entries acc : List (String × α)) :
    (entries.foldl (fun acc e => insert e.1 e.2 acc) acc).lookup k =
      (entries.reverse.lookup k).or (acc.lookup k) := by
  induction entries generalizing acc with
  | nil => rfl
  | cons e entries ih =>
    rw [List.foldl_cons, ih, List.reverse_cons, List.lookup_append, Option.or_assoc]
    congr 1
    by_cases hk : k = e.1
    · rw [hk, lookup_insert_self, List.lookup_cons, beq_self_eq_true]
      rfl
    · have hne : (k == e.1) = false := by simpa using hk
      rw [lookup_insert_of_ne hk, List.lookup_cons, hne]
      rfl

/-- Of two values under one key the later stays. -/
theorem lookup_ofList (k : String) (entries : List (String × α)) :
    (ofList entries).lookup k = entries.reverse.lookup k := by
  rw [ofList, lookup_foldl_insert, List.lookup_nil, Option.or_none]

end Keyed

theorem Json.get?_object (fields : List (String × Json)) (k : String) :
    (Json.object fields).get? k = fields.reverse.lookup k :=
  Keyed.lookup_ofList k fields

namespace Json

def part? (fields : List (String × Json)) (k : String) : Option Json :=
  fields.reverse.lookup k

/-- The parts of a record as a function that is known by its values only. A long reading of the parts
stays small with it, since the fields do not stand in each step. -/
theorem exists_parts (fields : List (String × Json)) :
    ∃ parts, (fun k => (Keyed.ofList fields).lookup k) = parts ∧ ∀ k, parts k = part? fields k :=
  ⟨_, rfl, fun k => Keyed.lookup_ofList k fields⟩

/-- To read the parts of a record, it is enough to know the part under each name. -/
theorem bind_parts? {α : Type _} {names : List String} {fields : List (String × Json)}
    {read : (String → Option Json) → Option α} {x : α}
    (h : ∀ parts, (∀ k, parts k = part? fields k) → read parts = some x) :
    (object fields).parts? names >>= read = some x := by
  obtain ⟨parts, hlookup, hparts⟩ := exists_parts fields
  have hread : (object fields).parts? names = some parts := congrArg some hlookup
  rw [hread]
  exact h parts hparts

section Part

variable {k k' : String} {fields : List (String × Json)}

@[simp] theorem part?_nil : part? [] k = none :=
  rfl

@[simp] theorem part?_append (fields' : List (String × Json)) :
    part? (fields ++ fields') k = (part? fields' k).or (part? fields k) := by
  rw [part?, List.reverse_append, List.lookup_append]
  rfl

@[simp] theorem part?_cons (j : Json) :
    part? ((k', j) :: fields) k = (part? fields k).or (if k = k' then some j else none) := by
  rw [part?, List.reverse_cons, List.lookup_append, List.lookup_cons, List.lookup_nil]
  by_cases h : k = k'
  · rw [h, beq_self_eq_true, if_pos rfl]
    rfl
  · rw [beq_eq_false_iff_ne.2 h, if_neg h]
    rfl

@[simp] theorem part?_fieldIfSome {α : Type _} (write : α → Json) (o : Option α) :
    part? (fieldIfSome k' write o) k = if k = k' then o.map write else none := by
  cases o with
  | none => rw [fieldIfSome, part?_nil, Option.map_none, ite_self]
  | some x => rw [fieldIfSome, part?_cons, part?_nil, Option.none_or, Option.map_some]

end Part

theorem Readable.object {depth : Nat} {fields : List (String × Json)}
    (h : ∀ f ∈ fields, Readable depth f.2) : Readable (depth + 1) (object fields) := by
  refine .obj (Keyed.sorted_ofList fields) fun f hf => ?_
  have hmem := List.foldlRecOn (motive := fun acc => ∀ f ∈ acc, f ∈ fields) fields
    (fun acc e => Keyed.insert e.1 e.2 acc) (List.forall_mem_nil _) fun acc hacc e he f hf => by
      rcases Keyed.mem_insert hf with rfl | hf
      · exact he
      · exact hacc f hf
  exact h f (hmem f hf)

theorem nat32?_nat {n : Nat} (h : n < UInt32.size) : nat32? (nat n) = some n :=
  natBelow?_nat h

theorem nat64?_nat {n : Nat} (h : n < UInt64.size) : nat64? (nat n) = some n :=
  natBelow?_nat h

theorem readable_nat {depth n : Nat} (h : n < UInt64.size) : Readable depth (nat n) := by
  have hsize : UInt64.size = Nat.pow 2 64 := rfl
  rw [hsize] at h
  refine .int ⟨?_, Int.ofNat_lt.2 h⟩
  omega

end Json

section Parts

variable {α : Type _} {k : String} {write : α → Json} {read : Json → Option α} {o : Option α}

@[simp] theorem forall_mem_fieldIfSome {P : String × Json → Prop} :
    (∀ f ∈ fieldIfSome k write o, P f) ↔ ∀ x ∈ o, P (k, write x) := by
  cases o <;> simp [fieldIfSome]

/-- What may be missing is found again, unless null is written for it. -/
theorem nullable_of (o : Option α) (write : α → Json) {parts : String → Option Json}
    (hparts : parts k = o.map write)
    (hwrite : ∀ x ∈ o, write x ≠ .null) (hread : ∀ x ∈ o, read (write x) = some x) :
    nullable parts read k = some o := by
  cases o with
  | none => rw [nullable, hparts, Option.map_none]
  | some x =>
    rw [nullable, hparts, Option.map_some]
    split
    · next h => cases h
    · next h => exact absurd (Option.some.inj h) (hwrite x rfl)
    · next h =>
      obtain rfl := Option.some.inj h
      rw [hread x rfl]
      rfl

/-- What was left out since it is the default is found again. -/
theorem withDefault_of (o : Option α) (write : α → Json) {parts : String → Option Json} {dflt : α}
    (hparts : parts k = o.map write) (hread : ∀ x ∈ o, read (write x) = some x) :
    withDefault parts dflt read k = some (o.getD dflt) := by
  cases o with
  | none => rw [withDefault, hparts, Option.map_none, Option.getD_none]
  | some x =>
    rw [withDefault, hparts, Option.map_some, Option.getD_some]
    exact hread x rfl

end Parts

def RoundTrips {α : Type _} [Wire α] (x : α) : Prop :=
  decode? (encode x) = some x

/-- The text that is written for the value is read as the value. -/
def ReadsThrough {α : Type _} [Wire α] (x : α) : Prop :=
  (Json.read? (encode x).text).bind decode? = some x

section RoundTrips

variable {α : Type _} [Wire α]

@[simp] theorem decode?_encode [LawfulWire α] (x : α) : decode? (encode x) = some x :=
  LawfulWire.decode_encode x

theorem roundTrips [LawfulWire α] (x : α) : RoundTrips x :=
  decode?_encode x

theorem mapM_eq_some_map {β γ : Type _} {f : β → Option γ} {g : β → γ} {xs : List β}
    (h : ∀ x ∈ xs, f x = some (g x)) : xs.mapM f = some (xs.map g) := by
  induction xs with
  | nil => rfl
  | cons x xs ih =>
    obtain ⟨hx, hxs⟩ := List.forall_mem_cons.1 h
    rw [List.mapM_cons, hx, ih hxs]
    rfl

theorem roundTrips_list {xs : List α} (h : ∀ x ∈ xs, RoundTrips x) : RoundTrips xs := by
  have hread : (xs.map encode).mapM (decode? (α := α)) = some (xs.map id) := by
    rw [List.mapM_map]
    exact mapM_eq_some_map h
  rw [List.map_id] at hread
  exact hread

theorem RoundTrips.readsThrough {x : α} (h : RoundTrips x)
    (hreadable : Json.Readable Json.maxDepth (encode x)) : ReadsThrough x := by
  rw [ReadsThrough, Json.read?_text hreadable]
  exact h

variable {depth : Nat}

@[simp] theorem readable_string (s : String) : Json.Readable depth (encode s) :=
  .str

@[simp] theorem readable_bool (b : Bool) : Json.Readable depth (encode b) :=
  .bool

theorem readable_list {xs : List α} (h : ∀ x ∈ xs, Json.Readable depth (encode x)) :
    Json.Readable (depth + 1) (encode xs) := by
  refine .arr fun j hj => ?_
  obtain ⟨x, hx, rfl⟩ := List.mem_map.1 hj
  exact h x hx

@[simp] theorem readable_strings (ss : List String) : Json.Readable (depth + 1) (encode ss) :=
  readable_list fun s _ => readable_string s

end RoundTrips

end WorkbookPlan
