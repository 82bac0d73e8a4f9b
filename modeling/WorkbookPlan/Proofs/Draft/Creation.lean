import WorkbookPlan.Proofs.Draft.Parts
import WorkbookPlan.Proofs.Step.Clashes

/-! What the step that makes a sheet writes. It names the sheet as its range, so it is taken to write
the whole sheet just if the name cannot be read as a range. -/
namespace WorkbookPlan

open Relation Step Sheet Writes

namespace Draft

variable {settings : Settings} {schema : Schema} {t : Table} {s u : Step} {name : String}

theorem exists_creation_of_creates (hs : s ∈ (ofSchema settings schema).steps)
    (hcreates : s.Creates name) : ∃ (d : Draft) (t : Table), t.name = name ∧ s = d.creation t := by
  obtain ⟨t, -, d, rfl | rfl⟩ := exists_of_mem_sheetsOf (mem_sheetsOf hs (.inl hcreates.action))
  · exact ⟨d, t, Option.some.inj ((sheet?_creation d t).symm.trans hcreates.sheet), rfl⟩
  · exact absurd hcreates.action (by decide : ¬ Action.writeHeaders = Action.createSheet)

theorem writtenRange_creation (d : Draft) (t : Table) : (d.creation t).writtenRange = t.name := by
  have hrange : (d.creation t).param? "range" = none := by
    simp [creation, createSheet, param?, Json.textAt?, Json.get?_object, List.lookup_cons]
  rw [writtenRange, hrange]
  rfl

/-- What is taken for the part of the sheet that is written. -/
theorem touches_of_creates (hs : s ∈ (ofSchema settings schema).steps)
    (hcreates : s.Creates name) (cell : Cell) :
    s.Touches name cell ↔ ∀ a, Area.parse name = .ok a → a.Contains cell := by
  obtain ⟨d, t, rfl, rfl⟩ := exists_creation_of_creates hs hcreates
  have hrange := writtenRange_creation d t
  constructor
  · intro htouches
    exact hrange ▸ htouches.contains
  · intro hcell
    exact ⟨rfl, hcreates.sheet, hrange.symm ▸ hcell⟩

theorem footprint?_of_creates (hs : s ∈ (ofSchema settings schema).steps)
    (hcreates : s.Creates name) :
    s.footprint? = some (name, .wholeSheet) ↔ ∀ a, Area.parse name ≠ .ok a := by
  obtain ⟨d, t, rfl, rfl⟩ := exists_creation_of_creates hs hcreates
  rw [footprint?_of_sheet? rfl hcreates.sheet, writtenRange_creation]
  cases Area.parse t.name with
  | ok a => simp
  | error e => simp

/-- The step that makes a sheet gets in the way of a write on it, if that one touches the cells that
the name of the sheet stands for. A name that is no range stands for all cells. -/
theorem collides_of_creates (hs : s ∈ (ofSchema settings schema).steps)
    (hcreates : s.Creates name) (hwrite : u.isWrite = true) (hsheet : u.sheet? = some name)
    (hcell : ∀ a, Area.parse name = .ok a → ∃ cell, a.Contains cell ∧ u.Touches name cell) :
    s.collides u = true := by
  have hcommon : ∃ cell, (∀ a, Area.parse name = .ok a → a.Contains cell) ∧
      u.Touches name cell := by
    cases hname : Area.parse name with
    | ok a =>
      obtain ⟨cell, hhere, hthere⟩ := hcell a hname
      refine ⟨cell, fun b hb => ?_, hthere⟩
      cases hb
      exact hhere
    | error e =>
      obtain ⟨cell, hthere⟩ := exists_touches hwrite hsheet
      exact ⟨cell, (fun b hb => nomatch hb), hthere⟩
  obtain ⟨cell, hhere, hthere⟩ := hcommon
  exact collides_iff_touches.2
    ⟨name, cell, (touches_of_creates hs hcreates cell).2 hhere, hthere⟩

/-- The step that makes a sheet counts as a write of the whole sheet just if the name is no range,
and it clashes with the unordered writes on the cells it counts for. -/
theorem creation_clashes (settings : Settings) (ht : t ∈ schema.tables) :
    (∃ s ∈ (ofSchema settings schema).steps, s.Creates t.name) ∧
    ∀ s ∈ (ofSchema settings schema).steps, s.Creates t.name →
      (s.footprint? = some (t.name, .wholeSheet) ↔ ∀ a, Area.parse t.name ≠ .ok a) ∧
      ∀ (steps : List Step) (i j : Nat) (u : Step), steps[i]? = some s → steps[j]? = some u →
        i ≠ j → u.isWrite = true → u.sheet? = some t.name →
        ¬ TransGen (Needs steps) s.id u.id → ¬ TransGen (Needs steps) u.id s.id →
        (∀ a, Area.parse t.name = .ok a → ∃ cell, a.Contains cell ∧ u.Touches t.name cell) →
        (if i < j then ⟨t.name, s.id, u.id⟩ else ⟨t.name, u.id, s.id⟩) ∈ clashes steps := by
  refine ⟨exists_creates settings ht, fun s hs hcreates =>
    ⟨footprint?_of_creates hs hcreates, ?_⟩⟩
  intro steps i j u hi hj hne hwrite hsheet hbehind hbefore hcell
  have hcollides : s.collides u = true := collides_of_creates hs hcreates hwrite hsheet hcell
  rcases Nat.lt_or_gt_of_ne hne with hlt | hgt
  · rw [if_pos hlt]
    exact mem_clashes_of_unordered hi hj hlt hcollides hcreates.sheet hbehind hbefore
  · rw [if_neg (Nat.lt_asymm hgt)]
    rw [collides_comm] at hcollides
    exact mem_clashes_of_unordered hj hi hgt hcollides hsheet hbefore hbehind

/-- A write of one cell that waits for nothing. -/
def cellEdit (sheet : String) : Step where
  id := "edit"
  order := 9
  stage := .writeData
  action := "write"
  isWrite := true
  parameters := .object [("sheet", .str sheet), ("range", .str "B2")]

theorem not_reaches_of_waits_nowhere {steps : List Step} (h : ∀ s ∈ steps, s.dependsOn = [])
    (id id' : StepId) : ¬ TransGen (Needs steps) id id' := by
  intro hpath
  obtain ⟨_, ⟨s, hs, -, hid⟩, -⟩ := TransGen.head'_iff.1 hpath
  rw [h s hs] at hid
  cases hid

theorem creation_clashes_orders :
    let orders : Table := ⟨"Orders", [⟨"Total", none, none, none⟩], []⟩
    let schema : Schema := { tables := [orders] }
    let s := createSheet 1 orders []
    (orders ∈ schema.tables ∧ s ∈ (ofSchema {} schema).steps ∧ s.Creates "Orders") ∧
      (∀ a, Area.parse "Orders" ≠ .ok a) ∧
      ⟨"Orders", s.id, "edit"⟩ ∈ clashes [s, cellEdit "Orders"] ∧
      ⟨"Orders", "edit", s.id⟩ ∈ clashes [cellEdit "Orders", s] := by
  intro orders schema s
  have ht : orders ∈ schema.tables := List.mem_singleton_self _
  have hs : s ∈ (ofSchema {} schema).steps := List.mem_of_getElem? (i := 0) rfl
  have hcreates : s.Creates "Orders" := ⟨rfl, by decide +kernel⟩
  have hwhole : s.footprint? = some ("Orders", .wholeSheet) := by decide +kernel
  have hsheet : (cellEdit "Orders").sheet? = some "Orders" := by decide +kernel
  have hfirst : ∀ id id', ¬ TransGen (Needs [s, cellEdit "Orders"]) id id' :=
    not_reaches_of_waits_nowhere (by simp [s, createSheet, cellEdit])
  have hsecond : ∀ id id', ¬ TransGen (Needs [cellEdit "Orders", s]) id id' :=
    not_reaches_of_waits_nowhere (by simp [s, createSheet, cellEdit])
  obtain ⟨hfootprint, hclashes⟩ := (creation_clashes {} ht).2 s hs hcreates
  have hname : ∀ a, Area.parse "Orders" ≠ .ok a := hfootprint.1 hwhole
  have hcell : ∀ a, Area.parse "Orders" = .ok a →
      ∃ cell, a.Contains cell ∧ (cellEdit "Orders").Touches "Orders" cell :=
    fun a ha => absurd ha (hname a)
  exact ⟨⟨ht, hs, hcreates⟩, hname,
    hclashes _ 0 1 _ rfl rfl (by decide) rfl hsheet (hfirst _ _) (hfirst _ _) hcell,
    hclashes _ 1 0 _ rfl rfl (by decide) rfl hsheet (hsecond _ _) (hsecond _ _) hcell⟩

/-- The name is that of a cell, so the step is taken to write this cell only. -/
theorem creation_clashes_quarter :
    let quarter : Table := ⟨"Q1", [⟨"Total", none, none, none⟩], []⟩
    let schema : Schema := { tables := [quarter] }
    let s := createSheet 1 quarter []
    let u := cellEdit "Q1"
    (s ∈ (ofSchema {} schema).steps ∧ s.Creates "Q1") ∧
      s.footprint? =
        some ("Q1", .cells { startCol := 16, endCol := 16, startRow := 1, endRow := some 1 }) ∧
      (u.isWrite = true ∧ u.sheet? = some "Q1" ∧ ¬ TransGen (Needs [s, u]) s.id u.id ∧
        ¬ TransGen (Needs [s, u]) u.id s.id) ∧
      clashes [s, u] = [] := by
  intro quarter schema s u
  have hfree : ∀ id id', ¬ TransGen (Needs [s, u]) id id' :=
    not_reaches_of_waits_nowhere (by simp [s, u, createSheet, cellEdit])
  exact ⟨⟨List.mem_of_getElem? (i := 0) rfl, rfl, by decide +kernel⟩, by decide +kernel,
    ⟨rfl, by decide +kernel, hfree _ _, hfree _ _⟩, by decide +kernel⟩

end Draft

end WorkbookPlan
