import LineCost.Proofs.Attribution.Entries
import LineCost.Proofs.Listing.Checked
import LineCost.Proofs.Outline.Printed
import LineCost.Run.Options

/-!
Source lines from end to end. What the instructions on a line cost is added, whole and once, to the
entry of the first block that records the line, and it is written there. Attribution takes a line
without cycles for one that is used up, and writing leaves it out; but with the built-in tables
every instruction that is counted has cycles.
-/

namespace LineCost.Run

open Attribution (FirstRecorder claims marked)

/-- What becomes of the costs on a line which the block in place `i` is the first to record. Loaded
blocks are those of `f`, and `f'` has come of it. -/
structure Charged (table : Table) (ls : List Listing.Line) (skips : List String)
    (f f' : Outline.Func) (text : String) (n i : Nat) : Prop where
  /-- They are added to the entry of that block for the line, which is written. -/
  first : ∃ b b' t, f.blocks[i]? = some b ∧ f'.blocks[i]? = some b' ∧ b.lines.get? n = some t ∧
    b'.lines.get? n = some (t + Listing.costOn table ls n) ∧
    Outline.Prints text f' b' n (t + Listing.costOn table ls n)
  /-- Any other entry gains the costs of other lines only, each of them whole and once: of its own
  line, if its block is the first to record that, and of lines that no block records. -/
  others : ∀ j c k t, f.blocks[j]? = some c → c.lines.get? k = some t → (j, k) ≠ (i, n) →
    ∃ (c' : Outline.Block) (ns : List Nat), f'.blocks[j]? = some c' ∧ ns.Nodup ∧ n ∉ ns ∧
      (∀ m ∈ ns, m = k ∧ FirstRecorder (marked skips f) m j ∨
        ∀ b ∈ marked skips f, claims b m = false) ∧
      c'.lines.get? k = some (t + Tally.sum (ns.map (Listing.costOn table ls)))

/-- The table that serves a listing in a run with the built-in ones. -/
def tableOf (o : Options) (listing : String) : Table :=
  Listing.tableFor Catalog.builtin o.cpu (Listing.readLines listing)

theorem marked_getElem? {skips : List String} {f : Outline.Func} {j : Nat} :
    (marked skips f)[j]? = f.blocks[j]?.map fun b =>
      { b with skip := Attribution.leavesOut skips b.name } :=
  List.getElem?_map

theorem get?_of_claims {b : Outline.Block} {n : Nat} (h : claims b n = true) :
    b.skip = false ∧ ∃ t, b.lines.get? n = some t := by
  obtain ⟨hskip, hrecords⟩ := Bool.and_eq_true_iff.1 h
  exact ⟨by simpa using hskip, LineMap.mem_lines_iff.1 (Attribution.records_iff.1 hrecords).2⟩

/-- Exact attribution charges every line that is recorded and has cycles. -/
theorem charged_of_exactlyAttributed {table : Table} {ls : List Listing.Line} {skips : List String}
    {f f' : Outline.Func} {hs : List Attribution.Handout} {lines : LineMap} {text : String}
    {n i : Nat} (he : Attribution.ExactlyAttributed lines (marked skips f) f'.blocks hs)
    (hlines : ∀ r, (lines.get? r).getD .zero = Listing.costOn table ls r)
    (hn : lines.get? n = some (Listing.costOn table ls n))
    (hc : (Listing.costOn table ls n).cycles ≠ 0) (hi : FirstRecorder (marked skips f) n i)
    (hp : ∀ b ∈ f'.blocks, b.skip = false → ∀ t, b.lines.get? n = some t → t.cycles ≠ 0 →
      Outline.Prints text f' b n t) : Charged table ls skips f f' text n i where
  first := by
    obtain ⟨c, hc', hclaims⟩ := hi.1
    obtain ⟨hskip, t, ht⟩ := get?_of_claims hclaims
    obtain ⟨b', hb', _, hskip', hget⟩ := he.get?_after hc' ht
    obtain ⟨b, hb, rfl⟩ := Option.map_eq_some_iff.1 (marked_getElem?.symm.trans hc')
    rw [he.linesFor_firstRecorder hn hc hi, List.map_singleton, Tally.sum_cons, Tally.sum_nil,
      Tally.add_zero, hlines] at hget
    refine ⟨b, b', t, hb, hb', ht, hget, ?_⟩
    apply hp b' (List.mem_of_getElem? hb') (hskip'.trans hskip) _ hget
    rw [Tally.cycles_add]
    omega
  others := by
    intro j c k t hcj hk hne
    have hmarked : (marked skips f)[j]? = _ := marked_getElem?.trans (congrArg _ hcj)
    obtain ⟨c', hc', _, _, hget⟩ := he.get?_after hmarked hk
    refine ⟨c', Attribution.linesFor hs j k, hc', he.nodup_linesFor, he.not_mem_linesFor hi hne, ?_,
      ?_⟩
    · intro m hm
      obtain ⟨h, hh, rfl, rfl, rfl⟩ := Attribution.mem_linesFor_iff.1 hm
      rcases he.recorded_or_free hh with ⟨hentry, hrec⟩ | hfree
      · exact .inl ⟨hentry.symm, hrec⟩
      · exact .inr hfree
    · simpa only [hlines] using hget

/-- With the built-in tables, and as long as no counter runs over, the costs on a line of a function
in line layout that has assembly are charged once, if any block of it that is not left out records
the line. -/
theorem checkedStages_charged {o : Options} {outline listing : String} {fs gs : List Outline.Func}
    {asm : List Listing.Func} {report : Attribution.Report}
    (hfs : Outline.checkedRead outline = .ok (.ok fs))
    (hasm : Listing.checkedRead Catalog.builtin o.cpu listing = .ok (.ok asm))
    (hmerge : Attribution.checkedMerge o.skips asm fs = .ok (.ok (gs, report))) :
    ∃ parts, Listing.Bracketed (Listing.readLines listing) parts ∧
      ∀ (p : Nat) (f : Outline.Func) (part : Listing.Section),
        fs[p]? = some f → f.layout = .line → part ∈ parts →
        Attribution.key (part.func (tableOf o listing)) = (f.name, f.decl.line) →
        ∃ f', gs[p]? = some f' ∧ f' = { f with blocks := f'.blocks } ∧
          ∀ n, (∃ b ∈ marked o.skips f, claims b n = true) →
            Listing.costsAt (tableOf o listing) part.lines n ≠ [] →
            ∃ i, FirstRecorder (marked o.skips f) n i ∧ Charged (tableOf o listing) part.lines
              o.skips f f' (Outline.write gs) n i := by
  have hread : Outline.read outline = .ok fs := (Outline.checkedRead_eq_ok_iff.1 hfs).1
  have hmerge := Attribution.merge_of_checkedMerge hmerge
  obtain ⟨parts, hparts, rfl⟩ := Listing.read_eq_ok (Listing.read_of_checkedRead hasm)
  have hwritable := Outline.writable_of_merge hmerge (Outline.writable_of_read hread)
  refine ⟨parts, hparts, ?_⟩
  intro p f part hf hl hpart hkey
  have hcosted := Listing.exactlyCosted_of_bracketed hparts hpart (tableOf o listing)
  have hp := Attribution.merge_getElem?_of_line hmerge hf hl (List.mem_map_of_mem hpart) hkey
  have hexact := Attribution.mergeLines_exactlyAttributed (part.func (tableOf o listing))
    (marked o.skips f)
  refine ⟨_, hp, rfl, ?_⟩
  intro n hrecorded hcosts
  obtain ⟨i, hi⟩ := Attribution.exists_firstRecorder_iff.2 hrecorded
  have hn : (part.func (tableOf o listing)).lines.get? n =
      some (Listing.costOn (tableOf o listing) part.lines n) := by
    rw [hcosted.lines n, if_neg hcosts]
    rfl
  have hc := Listing.cycles_costOn_ne_zero (Listing.tableFor_mem _ _ _) hcosts
  refine ⟨i, hi, charged_of_exactlyAttributed hexact hcosted.getD_lines hn hc hi ?_⟩
  intro b hb hskip t ht htc
  exact Outline.prints_write hwritable (List.mem_of_getElem? hp) hl hb hskip ht htc

/-- Three blocks that record one line: the first is left out, the second is charged, and the third
gets the line after it, which no block records. -/
def sharedOutline : String :=
  "func: f\n at: f.c:10\n block: cleanup\n  11:\n block: body\n  11: 1, 0, 0, 0, 0, 0, 1\n" ++
  " block: exit\n  11:\n  13:\n"

def sharedListing : String :=
  "\t.cpu cortex-a57\n// -- Begin function f\n\t.loc\t1 10 0 // f.c:10:0\n" ++
  "\t.loc\t1 11 0 // f.c:11:0\n\tldr\tx0, [x1]\n\t.loc\t1 12 0 // f.c:12:0\n\tnop\n" ++
  "\t.loc\t1 11 0 // f.c:11:0\n\tmul\tx0, x0, x1\n// -- End function\n"

def sharedFunc : Outline.Func :=
  ⟨"f", ⟨"f.c", 10⟩, .line,
    [{ Outline.Block.named "cleanup" with lines := .ofList [(11, .zero)] },
      { Outline.Block.named "body" with lines := .ofList [(11, ⟨1, 0, 0, 0, 0, 0, 1⟩)] },
      { Outline.Block.named "exit" with lines := .ofList [(11, .zero), (13, .zero)] }]⟩

def sharedSection : Listing.Section :=
  ⟨"f", [.loc "f.c" 10, .loc "f.c" 11, .instruction "ldr", .loc "f.c" 12, .instruction "nop",
    .loc "f.c" 11, .instruction "mul"]⟩

/-- What is read of the section. -/
def sharedAsm : Listing.Func :=
  ⟨"f", ⟨"f.c", 10⟩, [⟨none, "entry", some (.between 11 12), ⟨0, 1, 0, 1, 0, 1, 8⟩⟩],
    .ofList [(11, ⟨0, 1, 0, 1, 0, 0, 7⟩), (12, ⟨0, 0, 0, 0, 0, 1, 1⟩)]⟩

/-- What is made of the function: the load and the product are charged to the second block. -/
def sharedMerged : Outline.Func :=
  ⟨"f", ⟨"f.c", 10⟩, .line,
    [{ Outline.Block.named "cleanup" with skip := true, lines := .ofList [(11, .zero)] },
      { Outline.Block.named "body" with lines := .ofList [(11, ⟨1, 1, 0, 1, 0, 0, 8⟩)] },
      { Outline.Block.named "exit" with
          lines := .ofList [(11, ⟨0, 0, 0, 0, 0, 1, 1⟩), (13, .zero)] }]⟩

theorem checkedStages_charged_shared :
    ∃ asm, Outline.checkedRead sharedOutline = .ok (.ok [sharedFunc]) ∧
      Listing.checkedRead Catalog.builtin none sharedListing = .ok (.ok asm) ∧
      Attribution.checkedMerge Attribution.defaultSkips asm [sharedFunc] =
        .ok (.ok ([sharedMerged], ⟨1, 0, 1, 1, 0, 1⟩)) ∧
      Outline.write [sharedMerged] = "func: f\n at: f.c:10\n block: body\n" ++
        "  11: 1, 1, 0, 1, 0, 0, 8\n block: exit\n  11: 0, 0, 0, 0, 0, 1, 1\n" ∧
      ∃ i, FirstRecorder (marked Attribution.defaultSkips sharedFunc) 11 i ∧
        Charged (tableOf .default sharedListing) sharedSection.lines Attribution.defaultSkips
          sharedFunc sharedMerged (Outline.write [sharedMerged]) 11 i := by
  have hfs : Outline.checkedRead sharedOutline = .ok (.ok [sharedFunc]) := by decide +kernel
  have hfunc : sharedSection.func (tableOf .default sharedListing) = sharedAsm := by
    decide +kernel
  have hasm : Listing.checkedRead Catalog.builtin Options.default.cpu sharedListing =
      .ok (.ok [sharedAsm]) := by
    decide +kernel
  have hmerge : Attribution.checkedMerge Options.default.skips [sharedAsm] [sharedFunc] =
      .ok (.ok ([sharedMerged], ⟨1, 0, 1, 1, 0, 1⟩)) := by
    decide +kernel
  obtain ⟨parts, hparts, hcharged⟩ := checkedStages_charged hfs hasm hmerge
  have hsections : Listing.sections (Listing.readLines sharedListing) = .ok [sharedSection] := by
    decide +kernel
  obtain rfl := Except.ok.inj (hsections.symm.trans (Listing.sections_eq_ok_iff.2 hparts))
  have hkey : Attribution.key (sharedSection.func (tableOf Options.default sharedListing)) =
      (sharedFunc.name, sharedFunc.decl.line) := by
    rw [hfunc]
    rfl
  obtain ⟨f', hf', _, hn⟩ :=
    hcharged 0 sharedFunc sharedSection rfl rfl (List.mem_singleton_self _) hkey
  obtain rfl := Option.some.inj hf'
  obtain ⟨i, hi, hline⟩ := hn 11 (by decide +kernel) (by decide +kernel)
  exact ⟨_, hfs, hasm, hmerge, by decide +kernel, i, hi, hline⟩

end LineCost.Run
