import WorkbookPlan.Proofs.Draft.Parts
import WorkbookPlan.Proofs.Repair.Offspring
import WorkbookPlan.Proofs.Sheet.Tiling

/-! Steps that are tried again in parts. The parts carry bands of rows that make up the range of the
failed step, one after the other. The sheet in front of a band is the one in front of the range, but
without the quotes around it. -/
namespace WorkbookPlan

open Sheet

namespace Step

/-- The range of the step is read as a bounded area of so many rows. -/
structure Spans (s : Step) (range : String) (whole : Area) (rows : Nat) : Prop where
  param : s.param? "range" = some range
  parse : Area.parse range = .ok whole
  rowCount : whole.rowCount? = some rows

/-- The range of the step is read as a band and names the same sheet as another range. The preview, if
there is one, shows the band and the number of its cells. -/
structure Carries (t failed : Step) (range : String) (band : Area) : Prop where
  range : ∃ text, t.param? "range" = some text ∧ Area.parse text = .ok band ∧
    (splitSheet text.toList).1 = (splitSheet range.toList).1
  preview : t.preview = failed.preview.map fun p =>
    { p with affectedRange := band.text, estimatedCells := some {cell | band.Contains cell}.ncard }

end Step

namespace Patch

open Step

variable {m : Mint} {failed : Step} {parts rows : Nat} {range : String} {whole : Area}
  {sheet : Option (List Char)} {areas : List Area}

/-- The new steps carry bands that make up an area, in order. The first waits for what the failed step
waits for, each later one for the one before, and the last stands in for the failed step. -/
structure Partitions (p : Patch) (failed : Step) (range : String) (whole : Area)
    (bands : List Area) : Prop where
  tiled : whole.TiledBy bands
  once : ∀ cell, bands.countP (fun b => b.Contains cell) = if whole.Contains cell then 1 else 0
  even : bands.Pairwise Area.AtMostOneTaller
  carries : List.Forall₂ (fun band t => t.Carries failed range band) bands p.steps
  first : p.steps.head?.map (·.dependsOn) = some failed.dependsOn
  chained : p.steps.IsChain fun s t => t.dependsOn = [s.id]
  replacement : p.replacement = p.steps.getLast?.map (·.id)

section Pieces

theorem pieces_of_spans (h : failed.Spans range whole rows) (parts : Nat) :
    pieces failed parts = ((splitSheet range.toList).1, whole.splitRows parts) := by
  simp only [pieces, h.param, h.parse]

theorem split_of_many (hpieces : pieces failed parts = (sheet, areas)) (hmany : 2 ≤ areas.length) :
    let steps := areas.zipIdx.map (part m failed sheet areas.length)
    split m failed parts = ⟨steps, steps.getLast?.map (·.id)⟩ := by
  unfold split
  rw [hpieces]
  exact if_neg (Nat.not_lt.2 hmany)

theorem split_of_few (h : (pieces failed parts).2.length < 2) :
    split m failed parts = retry m failed :=
  if_pos h

/-- A step is cut if its range has a band for two parts or more, and only then. -/
theorem spans_of_many (h : 2 ≤ (pieces failed parts).2.length) :
    ∃ range whole rows, failed.Spans range whole rows ∧ 2 ≤ min (max parts 1) rows := by
  unfold pieces at h
  split at h
  · exact absurd h (by decide)
  · next range hrange =>
    split at h
    · exact absurd h (by decide)
    · next whole hwhole =>
      cases hrows : whole.rowCount? with
      | none =>
        have hwhole' : whole.splitRows parts = [whole] := by rw [Area.splitRows, hrows]
        rw [hwhole'] at h
        exact absurd h (Nat.not_lt.2 (Nat.le_refl 1))
      | some rows =>
        obtain ⟨hlength, -⟩ := Area.splitRows_spec (Area.onSheet_of_parse hwhole) hrows parts
        rw [hlength] at h
        exact ⟨range, whole, rows, ⟨hrange, hwhole, hrows⟩, h⟩

end Pieces

section Parts

/-- The sheet that a range names is a bare name, so it is named again by the parts. -/
theorem splitSheet_qualified (range : String) (band : Area) :
    (splitSheet (qualified (splitSheet range.toList).1 band.text).toList).1 =
      (splitSheet range.toList).1 := by
  have hplain : '!' ∉ band.text.toList := (Area.isPlain_text band).notMem
  rcases Text.notMem_or_exists_last '!' range.toList with hnone | ⟨sheet, loc, hsplit, hloc⟩
  · rw [splitSheet_of_notMem hnone, qualified, splitSheet_of_notMem hplain]
  · obtain ⟨name, hname⟩ := exists_quotes sheet
    have hchars : (qualified (some name) band.text).toList = name ++ '!' :: band.text.toList := by
      simp [qualified]
    rw [hsplit, splitSheet_quotes hname hloc, hchars, splitSheet_quotes (.refl hname.isBare) hplain]

theorem carries_part (hspans : failed.Spans range whole rows) {band : Area}
    (hband : band ∈ whole.splitRows parts) (i : Nat) :
    (part m failed (splitSheet range.toList).1 areas.length (band, i)).Carries failed range band := by
  have hwhole : whole.OnSheet := Area.onSheet_of_parse hspans.parse
  have honSheet : band.OnSheet := (Area.of_mem_splitRows hwhole hband).1
  obtain ⟨-, htiled, -⟩ := Area.splitRows_spec hwhole hspans.rowCount parts
  have hcells := Area.cellCount?_eq_ncard honSheet (htiled.endRow_eq hband)
  constructor
  · exact ⟨_, param?_setParam_self _ _ _, parse_qualified _ honSheet, splitSheet_qualified range band⟩
  · rw [part, hcells]
    rfl

theorem dependsOn_part_zero (total : Nat) (band : Area) :
    (part m failed sheet total (band, 0)).dependsOn = failed.dependsOn := rfl

theorem dependsOn_part_succ (total i : Nat) (band : Area) :
    (part m failed sheet total (band, i + 1)).dependsOn = [m.id (i + 1)] := rfl

theorem head?_parts (hne : areas ≠ []) (total : Nat) :
    ((areas.zipIdx.map (part m failed sheet total)).head?.map (·.dependsOn)) =
      some failed.dependsOn := by
  obtain ⟨band, rest, rfl⟩ := List.exists_cons_of_ne_nil hne
  rw [List.zipIdx_cons, List.map_cons, List.head?_cons, Option.map_some, dependsOn_part_zero]

theorem isChain_parts (areas : List Area) (total : Nat) :
    (areas.zipIdx.map (part m failed sheet total)).IsChain fun s t => t.dependsOn = [s.id] := by
  rw [List.isChain_iff_getElem]
  intro i hi
  simp only [List.getElem_map, List.getElem_zipIdx, Nat.zero_add, dependsOn_part_succ, id_part]

end Parts

theorem partitions_split (m : Mint) (hspans : failed.Spans range whole rows)
    (hmany : 2 ≤ min (max parts 1) rows) :
    (split m failed parts).Partitions failed range whole (whole.splitRows parts) := by
  obtain ⟨hlength, htiled, heven⟩ :=
    Area.splitRows_spec (Area.onSheet_of_parse hspans.parse) hspans.rowCount parts
  have hsplit := split_of_many (m := m) (pieces_of_spans hspans parts) (hlength ▸ hmany)
  have hne : whole.splitRows parts ≠ [] := by
    intro hnil
    rw [hnil, List.length_nil] at hlength
    omega
  rw [hsplit]
  exact {
    tiled := htiled
    once := htiled.countP_contains
    even := heven
    carries := forall₂_map_zipIdx fun x hx =>
      carries_part hspans (List.fst_mem_of_mem_zipIdx hx) x.2
    first := head?_parts hne _
    chained := isChain_parts _ _
    replacement := rfl }

/-- A bounded range of two rows or more is cut into steps that carry its bands; any other step is
just tried again. -/
theorem split_partitions (m : Mint) (failed : Step) (parts : Nat) :
    (∀ range whole rows, failed.Spans range whole rows → 2 ≤ min (max parts 1) rows →
      (split m failed parts).steps.length = min (max parts 1) rows ∧
        ∃ bands, (split m failed parts).Partitions failed range whole bands) ∧
    ((∀ range whole rows, failed.Spans range whole rows → min (max parts 1) rows < 2) →
      ∃ t, split m failed parts = ⟨[t], some t.id⟩ ∧
        t = { failed with id := t.id, status := .pending, description := t.description }) := by
  constructor
  · intro range whole rows hspans hmany
    have hpartitions := partitions_split m hspans hmany
    obtain ⟨hlength, -⟩ :=
      Area.splitRows_spec (Area.onSheet_of_parse hspans.parse) hspans.rowCount parts
    exact ⟨hpartitions.carries.length_eq.symm.trans hlength, _, hpartitions⟩
  · intro hfew
    have hnone : (pieces failed parts).2.length < 2 := by
      by_contra hmany
      obtain ⟨range, whole, rows, hspans, hcount⟩ := spans_of_many (Nat.le_of_not_lt hmany)
      exact absurd (hfew range whole rows hspans) (Nat.not_lt.2 hcount)
    exact ⟨_, split_of_few hnone, rfl⟩

def priceUpdate (range : String) : Step where
  id := "w1"
  order := 1
  stage := .writeData
  action := "write_range"
  parameters := .object [("range", .str range), ("sheet", .str "Price List")]
  dependsOn := ["s2"]
  isWrite := true
  preview := some ((Preview.of "A2:C8").withCells 21)
  status := .failed

/-- Seven rows in three parts, and a range without an end. -/
theorem split_partitions_prices :
    let prices := priceUpdate "'Price List'!A2:C8"
    prices.Spans "'Price List'!A2:C8" ⟨0, 2, 2, some 8⟩ 7 ∧
      (split ⟨1, "TOKEN"⟩ prices 3).steps.length = 3 ∧
      (∃ bands, (split ⟨1, "TOKEN"⟩ prices 3).Partitions prices "'Price List'!A2:C8"
        ⟨0, 2, 2, some 8⟩ bands) ∧
      (¬ ∃ range whole rows, (priceUpdate "D2:D").Spans range whole rows) ∧
      ∃ t, split ⟨1, "TOKEN"⟩ (priceUpdate "D2:D") 3 = ⟨[t], some t.id⟩ ∧
        t.parameters = (priceUpdate "D2:D").parameters ∧ t.dependsOn = ["s2"] := by
  intro prices
  have hspans : prices.Spans "'Price List'!A2:C8" ⟨0, 2, 2, some 8⟩ 7 :=
    ⟨by decide +kernel, by decide +kernel, rfl⟩
  have hopen : ¬ ∃ range whole rows, (priceUpdate "D2:D").Spans range whole rows := by
    rintro ⟨range, whole, rows, hparam, hparse, hrows⟩
    have hrange : (priceUpdate "D2:D").param? "range" = some "D2:D" := by decide +kernel
    have harea : Area.parse "D2:D" = .ok ⟨3, 3, 2, none⟩ := by decide +kernel
    obtain rfl := Option.some.inj (hrange.symm.trans hparam)
    obtain rfl := Except.ok.inj (harea.symm.trans hparse)
    cases hrows
  obtain ⟨hlength, hbands⟩ := (split_partitions ⟨1, "TOKEN"⟩ prices 3).1 _ _ _ hspans (by decide)
  obtain ⟨t, hsplit, ht⟩ := (split_partitions ⟨1, "TOKEN"⟩ (priceUpdate "D2:D") 3).2
    fun range whole rows h => absurd ⟨range, whole, rows, h⟩ hopen
  exact ⟨hspans, hlength, hbands, hopen, t, hsplit, by rw [ht], by rw [ht]; rfl⟩

section Qualifier

variable {qualifier loc : String}

/-- The ranges of the steps are the bands, each behind the same qualifier. -/
def BandsBehind (qualifier : String) (bands : List Area) (steps : List Step) : Prop :=
  List.Forall₂ (fun band t => t.param? "range" = some (qualifier ++ "!" ++ band.text)) bands steps

theorem BandsBehind.unique {front : String} {bands : List Area} {steps : List Step}
    (h : BandsBehind front bands steps) (h' : BandsBehind qualifier bands steps)
    (hne : steps ≠ []) : front = qualifier := by
  cases h with
  | nil => exact absurd rfl hne
  | cons hfront _ =>
    cases h' with
    | cons hqualifier _ =>
      have htext := congrArg String.toList (Option.some.inj (hfront.symm.trans hqualifier))
      simpa [← String.toList_inj] using htext

/-- The parts of a step name the sheet as it is read off the range. -/
theorem bandsBehind_split (m : Mint) {name : List Char} (hspans : failed.Spans range whole rows)
    (hmany : 2 ≤ min (max parts 1) rows) (hname : (splitSheet range.toList).1 = some name) :
    BandsBehind (String.ofList name) (whole.splitRows parts) (split m failed parts).steps := by
  obtain ⟨hlength, -⟩ :=
    Area.splitRows_spec (Area.onSheet_of_parse hspans.parse) hspans.rowCount parts
  have hpieces := pieces_of_spans hspans parts
  rw [hname] at hpieces
  rw [split_of_many hpieces (hlength ▸ hmany)]
  exact forall₂_map_zipIdx fun _ _ => param?_setParam_self _ _ _

/-- The parts of a step that is cut name their bands behind its qualifier, which loses the single
quotes at its ends. -/
theorem split_requalifies (m : Mint) (hrange : failed.param? "range" = some (qualifier ++ "!" ++ loc))
    (hloc : '!' ∉ loc.toList) (hcut : 2 ≤ (split m failed parts).steps.length) :
    ∃ name whole bands, Quotes qualifier.toList name ∧ Area.parse loc = .ok whole ∧
      whole.TiledBy bands ∧ BandsBehind (String.ofList name) bands (split m failed parts).steps ∧
      (BandsBehind qualifier bands (split m failed parts).steps ↔ IsBare qualifier.toList) := by
  have hmany : 2 ≤ (pieces failed parts).2.length := by
    by_contra hfew
    rw [split_of_few (Nat.lt_of_not_le hfew)] at hcut
    exact absurd hcut (Nat.lt_irrefl 1)
  obtain ⟨range, whole, rows, hspans, hcount⟩ := spans_of_many hmany
  obtain rfl := Option.some.inj (hrange.symm.trans hspans.param)
  have hchars : (qualifier ++ "!" ++ loc).toList = qualifier.toList ++ '!' :: loc.toList := by simp
  have hwhole : Area.parse loc = .ok whole := by
    rw [← hspans.parse, Area.parse, Area.parse, hchars, Area.read_append _ hloc,
      Area.read_of_notMem hloc]
  obtain ⟨name, hname⟩ := exists_quotes qualifier.toList
  have hsteps := bandsBehind_split m hspans hcount (by rw [hchars, splitSheet_quotes hname hloc])
  refine ⟨name, whole, _, hname, hwhole, (partitions_split m hspans hcount).tiled, hsteps,
    fun hkept => ?_, fun hbare => ?_⟩
  · have hne : (split m failed parts).steps ≠ [] := by
      intro hnil
      rw [hnil] at hcut
      exact absurd hcut (by decide)
    rw [← hsteps.unique hkept hne, String.toList_ofList]
    exact hname.isBare
  · have hsame : name = qualifier.toList := hname.dropped.symm.trans (Quotes.refl hbare).dropped
    rwa [hsame, String.ofList_toList] at hsteps

/-- A sheet that is named without quotes keeps its name, and one in quotes loses them. -/
theorem split_requalifies_prices :
    let prices := priceUpdate "Prices!A2:C8"
    let quoted := priceUpdate "'Price List'!A2:C8"
    '!' ∉ "A2:C8".toList ∧ 2 ≤ (split ⟨1, "TOKEN"⟩ prices 2).steps.length ∧
      2 ≤ (split ⟨1, "TOKEN"⟩ quoted 2).steps.length ∧
      (∃ bands, BandsBehind "Prices" bands (split ⟨1, "TOKEN"⟩ prices 2).steps) ∧
      ∃ bands, BandsBehind "Price List" bands (split ⟨1, "TOKEN"⟩ quoted 2).steps ∧
        ¬ BandsBehind "'Price List'" bands (split ⟨1, "TOKEN"⟩ quoted 2).steps := by
  intro prices quoted
  have hloc : '!' ∉ "A2:C8".toList := by decide
  have hprices : 2 ≤ (split ⟨1, "TOKEN"⟩ prices 2).steps.length := by decide +kernel
  have hquoted : 2 ≤ (split ⟨1, "TOKEN"⟩ quoted 2).steps.length := by decide +kernel
  have hrange : prices.param? "range" = some ("Prices" ++ "!" ++ "A2:C8") := by decide +kernel
  have hrange' : quoted.param? "range" = some ("'Price List'" ++ "!" ++ "A2:C8") := by
    decide +kernel
  obtain ⟨_, _, bands, -, -, -, -, hkeeps⟩ :=
    split_requalifies ⟨1, "TOKEN"⟩ hrange hloc hprices
  obtain ⟨name, _, bands', hname, -, -, hloses, hkeeps'⟩ :=
    split_requalifies ⟨1, "TOKEN"⟩ hrange' hloc hquoted
  have hbare : name = "Price List".toList := hname.dropped.symm.trans (by decide)
  rw [hbare] at hloses
  exact ⟨hloc, hprices, hquoted, ⟨bands, hkeeps.2 ⟨by decide, by decide⟩⟩, bands', hloses,
    fun h => (hkeeps'.1 h).1 (by decide)⟩

/-- The quotes around a sheet name with a blank in it are lost. -/
theorem split_unquotes :
    let parts := (split ⟨1, "TOKEN"⟩ (priceUpdate "'Price List'!A2:C8") 2).steps
    parts.map (·.param? "range") = [some "Price List!A2:C5", some "Price List!A6:C8"] ∧
      ¬ ∀ t ∈ parts, ∃ band : Area, t.param? "range" = some ("'Price List'!" ++ band.text) := by
  intro parts
  have hranges : parts.map (·.param? "range") =
      [some "Price List!A2:C5", some "Price List!A6:C8"] := by decide +kernel
  refine ⟨hranges, fun hkept => ?_⟩
  obtain ⟨t, ht, hrange⟩ : ∃ t ∈ parts, t.param? "range" = some "Price List!A2:C5" :=
    List.mem_map.1 (hranges ▸ List.mem_cons_self)
  obtain ⟨band, hband⟩ := hkept t ht
  have htext := congrArg String.toList (Option.some.inj (hrange.symm.trans hband))
  simp at htext

end Qualifier

end Patch

end WorkbookPlan
