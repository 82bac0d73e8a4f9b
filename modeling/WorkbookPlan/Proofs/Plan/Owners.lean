import WorkbookPlan.Plan.Exchange
import WorkbookPlan.Proofs.Json.Record

/-! Who owns which field survives the exchange form, and only the order of registration is lost. -/
namespace WorkbookPlan

namespace Keyed

variable {α β : Type _}

theorem insert_map (f : α → β) (k : String) (v : α) (entries : List (String × α)) :
    insert k (f v) (entries.map (Prod.map id f)) = (insert k v entries).map (Prod.map id f) := by
  induction entries with
  | nil => rfl
  | cons e rest ih =>
    obtain ⟨k', v'⟩ := e
    rw [List.map_cons]
    show insert k (f v) ((k', f v') :: rest.map (Prod.map id f)) = _
    unfold insert
    split
    · rfl
    · split
      · rfl
      · rw [ih]
        rfl

theorem ofList_map (f : α → β) (entries : List (String × α)) :
    ofList (entries.map (Prod.map id f)) = (ofList entries).map (Prod.map id f) := by
  have hfold : ∀ acc : List (String × α),
      (entries.map (Prod.map id f)).foldl (fun acc e => insert e.1 e.2 acc)
          (acc.map (Prod.map id f)) =
        (entries.foldl (fun acc e => insert e.1 e.2 acc) acc).map (Prod.map id f) := by
    induction entries with
    | nil => exact fun _ => rfl
    | cons e rest ih =>
      intro acc
      rw [List.map_cons, List.foldl_cons, List.foldl_cons, ← ih]
      exact congrArg (List.foldl _ · _) (insert_map f e.1 e.2 acc)
  exact hfold []

theorem Sorted.nodup_keys {entries : List (String × α)} (h : Sorted entries) :
    (Assoc.keys entries).Nodup :=
  List.pairwise_map.2 (h.imp String.ne_of_lt)

theorem Sorted.map {entries : List (String × α)} (h : Sorted entries) (f : α → β) :
    Sorted (entries.map (Prod.map id f)) :=
  List.pairwise_map.2 h

end Keyed

namespace Assoc

variable {α : Type _}

theorem put_of_notMem {k : String} {entries : List (String × α)} (h : k ∉ keys entries) (v : α) :
    put k v entries = entries ++ [(k, v)] := by
  induction entries with
  | nil => rfl
  | cons e rest ih =>
    obtain ⟨hne, hrest⟩ := not_or.1 (mt List.mem_cons.2 h)
    rw [put, if_neg (Ne.symm hne), ih hrest]
    rfl

/-- Entries under different keys stay as they are. -/
theorem ofList_of_nodup {entries : List (String × α)} (h : (keys entries).Nodup) :
    ofList entries = entries := by
  have hfold : ∀ acc, (keys (acc ++ entries)).Nodup →
      entries.foldl (fun acc e => put e.1 e.2 acc) acc = acc ++ entries := by
    clear h
    induction entries with
    | nil => exact fun acc _ => (List.append_nil acc).symm
    | cons e rest ih =>
      intro acc hnodup
      have hnew : e.1 ∉ keys acc := fun hmem => by
        rw [keys, List.map_append] at hnodup
        exact (List.nodup_append.1 hnodup).2.2 _ hmem _ List.mem_cons_self rfl
      rw [List.foldl_cons, put_of_notMem hnew, ih _ (by rwa [List.append_assoc]),
        List.append_assoc]
      rfl
  exact hfold [] h

/-- Under different keys the order does not matter. -/
theorem lookup_reverse {entries : List (String × α)} (h : (keys entries).Nodup) (k : String) :
    entries.reverse.lookup k = entries.lookup k := by
  induction entries with
  | nil => rfl
  | cons e rest ih =>
    obtain ⟨hnew, hrest⟩ := List.nodup_cons.1 h
    rw [List.reverse_cons, List.lookup_append, ih hrest, List.lookup_cons, List.lookup_cons]
    cases hk : k == e.1 with
    | false => exact Option.or_none
    | true =>
      have hnone : rest.lookup k = none := List.lookup_eq_none_iff.2 fun x hx => by
        have hmem : x.1 ∈ keys rest := List.mem_map_of_mem hx
        have hne : e.1 ≠ x.1 := by
          intro heq
          rw [← heq] at hmem
          exact hnew hmem
        rw [eq_of_beq hk]
        exact bne_iff_ne.2 hne
      rw [hnone]
      rfl

theorem lookup_map {β : Type _} (f : α → β) (k : String) (entries : List (String × α)) :
    (entries.map (Prod.map id f)).lookup k = (entries.lookup k).map f := by
  induction entries with
  | nil => rfl
  | cons e rest ih =>
    rw [List.map_cons, List.lookup_cons, List.lookup_cons, ih]
    cases hk : k == e.1 with
    | false => rw [Prod.map_fst, id, hk]
    | true => rw [Prod.map_fst, id, hk, Prod.map_snd, Option.map_some]

end Assoc

namespace Keyed

variable {α : Type _}

/-- Sorting entries under different keys changes no value. -/
theorem lookup_ofList_of_nodup {entries : List (String × α)} (h : (Assoc.keys entries).Nodup)
    (k : String) : (ofList entries).lookup k = entries.lookup k := by
  rw [lookup_ofList, Assoc.lookup_reverse h]

theorem ofList_ofList (entries : List (String × α)) : ofList (ofList entries) = ofList entries :=
  ofList_of_sorted (sorted_ofList entries)

end Keyed

theorem mapM_str? (entries : List (String × String)) :
    (entries.map (Prod.map id Json.str)).mapM (fun e => e.2.str?.map (Prod.mk e.1)) =
      some entries := by
  have hread : (entries.map (Prod.map id Json.str)).mapM (fun e => e.2.str?.map (Prod.mk e.1)) =
      some (entries.map id) := by
    rw [List.mapM_map]
    exact mapM_eq_some_map fun _ _ => rfl
  rwa [List.map_id] at hread

instance : LawfulWire (KeyedMap StepId) where
  decode_encode m := by
    have hentries : KeyedMap.ofList m.entries = m := by
      obtain ⟨entries, hsorted⟩ := m
      simp only [KeyedMap.ofList, Keyed.ofList_of_sorted hsorted]
    have hread := congrArg (Option.bind · fun links => some (KeyedMap.ofList links))
      (mapM_str? m.entries)
    rw [Option.bind_some, hentries] at hread
    exact hread

namespace Owners

/-- The same owners, with the tables and the fields in rising order. -/
def sorted (o : Owners) : Owners :=
  .ofLists ((Keyed.ofList o.tables).map (Prod.map id Keyed.ofList))

theorem tables_sorted (o : Owners) :
    o.sorted.tables = (Keyed.ofList o.tables).map (Prod.map id Keyed.ofList) := by
  have hfields : ∀ fields : List (String × StepId),
      Assoc.ofList (Keyed.ofList fields) = Keyed.ofList fields := fun fields =>
    Assoc.ofList_of_nodup (Keyed.sorted_ofList fields).nodup_keys
  have htables : ((Keyed.ofList o.tables).map (Prod.map id Keyed.ofList)).map
      (fun t => (t.1, Assoc.ofList t.2)) =
        (Keyed.ofList o.tables).map (Prod.map id Keyed.ofList) := by
    rw [List.map_map]
    exact List.map_congr_left fun t _ => congrArg (Prod.mk t.1) (hfields t.2)
  have hnodup := ((Keyed.sorted_ofList o.tables).map (Keyed.ofList (α := StepId))).nodup_keys
  calc o.sorted.tables
      = Assoc.ofList (((Keyed.ofList o.tables).map (Prod.map id Keyed.ofList)).map
          fun t => (t.1, Assoc.ofList t.2)) := rfl
    _ = (Keyed.ofList o.tables).map (Prod.map id Keyed.ofList) := by
      rw [htables, Assoc.ofList_of_nodup hnodup]

/-- Each field keeps its owner. -/
theorem owner?_sorted (o : Owners) (table field : String) :
    o.sorted.owner? table field = o.owner? table field := by
  unfold owner? fieldsOf
  rw [tables_sorted, Assoc.lookup_map, Keyed.lookup_ofList_of_nodup o.nodup_tables]
  cases h : o.tables.lookup table with
  | none => rfl
  | some fields =>
    have hnodup : (Assoc.keys fields).Nodup := o.nodup_fields _ (Assoc.mem_of_lookup h)
    exact Keyed.lookup_ofList_of_nodup hnodup field

theorem encode_eq (o : Owners) :
    encode o = .obj ((Keyed.ofList o.tables).map (Prod.map id fun fields =>
      .obj ((Keyed.ofList fields).map (Prod.map id Json.str)))) := by
  have hfields : (fun fields : List (String × StepId) =>
      Json.object (fields.map (Prod.map id Json.str))) =
        fun fields => .obj ((Keyed.ofList fields).map (Prod.map id Json.str)) :=
    funext fun fields => congrArg Json.obj (Keyed.ofList_map Json.str fields)
  rw [← hfields, ← Keyed.ofList_map]
  rfl

/-- The order of registration does not show. -/
theorem encode_sorted (o : Owners) : encode o.sorted = encode o := by
  have hsorted := (Keyed.sorted_ofList o.tables).map (Keyed.ofList (α := StepId))
  rw [encode_eq, encode_eq, tables_sorted, Keyed.ofList_of_sorted hsorted, List.map_map]
  refine congrArg Json.obj (List.map_congr_left fun t _ => ?_)
  show (t.1, Json.obj ((Keyed.ofList (Keyed.ofList t.2)).map (Prod.map id Json.str))) = _
  rw [Keyed.ofList_ofList]
  rfl

theorem decode?_encode (o : Owners) : decode? (encode o) = some o.sorted := by
  have hread : ((Keyed.ofList o.tables).map (Prod.map id fun fields =>
      Json.obj ((Keyed.ofList fields).map (Prod.map id Json.str)))).mapM
        (fun t => (readFields? t.2).map (Prod.mk t.1)) =
      some ((Keyed.ofList o.tables).map (Prod.map id Keyed.ofList)) := by
    rw [List.mapM_map]
    refine mapM_eq_some_map fun t _ => ?_
    exact congrArg (Option.map (Prod.mk t.1)) (mapM_str? (Keyed.ofList t.2))
  rw [encode_eq]
  exact congrArg (Option.bind · fun tables => some (ofLists tables)) hread

theorem readable {depth : Nat} (o : Owners) : Json.Readable (depth + 2) (encode o) := by
  refine Json.Readable.object ?_
  intro t ht
  obtain ⟨⟨table, fields⟩, -, rfl⟩ := List.mem_map.1 ht
  refine Json.Readable.object ?_
  intro f hf
  obtain ⟨⟨field, id⟩, -, rfl⟩ := List.mem_map.1 hf
  exact .str

end Owners

theorem readable_supersessions {depth : Nat} (m : KeyedMap StepId) :
    Json.Readable (depth + 1) (encode m) := by
  refine .obj (m.sorted.map Json.str) ?_
  intro f hf
  obtain ⟨⟨old, new⟩, -, rfl⟩ := List.mem_map.1 hf
  exact .str

end WorkbookPlan
