import LineCost.Outline.Reader
import LineCost.Proofs.Totals
import Mathlib.Data.List.Induction
import Mathlib.Data.List.Forall2

/-!
What an outline declares. An outline is a row of functions, each with its place and a row of blocks;
under a block stands nothing, its span with or without a tally, or a row of source lines. Here is
which lines declare what, and what is to come of it.
-/

namespace LineCost

namespace LineMap

/-- The map of entries some of which come with tallies. -/
def gather (entries : List (Nat × Option Tally)) : LineMap :=
  entries.foldl (fun m e => m.addAt e.1 (e.2.getD .zero)) empty

/-- All tallies that come with entries for a line. -/
def given (entries : List (Nat × Option Tally)) (n : Nat) : List Tally :=
  entries.filterMap fun e => if e.1 = n then e.2 else none

theorem gather_append (entries : List (Nat × Option Tally)) (e : Nat × Option Tally) :
    gather (entries ++ [e]) = (gather entries).addAt e.1 (e.2.getD .zero) := by
  rw [gather, List.foldl_append]
  rfl

end LineMap

namespace Outline

/-- What is declared under the header of a block. -/
inductive Body where
  | nothing
  | span (s : Span) (t : Option Tally)
  | entries (first : Nat × Option Tally) (rest : List (Nat × Option Tally))

namespace Body

def lines : Body → List Line
  | nothing => []
  | span s t => .size s.size :: .start s.start :: .stop s.stop :: (t.map Line.tally).toList
  | entries first rest => (first :: rest).map fun e => .entry e.1 e.2

/-- The layout that shows in the body. -/
def layout? : Body → Option Layout
  | nothing => none
  | span _ _ => some .block
  | entries _ _ => some .line

def span? : Body → Option Span
  | span s _ => some s
  | _ => none

def tally : Body → Tally
  | span _ t => t.getD .zero
  | _ => .zero

def entryList : Body → List (Nat × Option Tally)
  | entries first rest => first :: rest
  | _ => []

end Body

structure BlockDecl where
  name : String
  body : Body

def BlockDecl.lines (d : BlockDecl) : List Line := .block d.name :: d.body.lines

structure FuncDecl where
  name : String
  place : Location
  blocks : List BlockDecl

namespace FuncDecl

def lines (d : FuncDecl) : List Line :=
  .func d.name :: .decl d.place :: d.blocks.flatMap BlockDecl.lines

/-- Whether a span is declared for one of the blocks. -/
def HasSpan (d : FuncDecl) : Prop := ∃ b ∈ d.blocks, b.body.layout? = some .block

/-- Whether source lines are declared for one of the blocks. -/
def HasEntry (d : FuncDecl) : Prop := ∃ b ∈ d.blocks, b.body.layout? = some .line

/-- A function may not have both. -/
def Uniform (d : FuncDecl) : Prop := ¬ (d.HasSpan ∧ d.HasEntry)

end FuncDecl

/-- The block that is declared. -/
def BlockDecl.block (d : BlockDecl) : Block :=
  ⟨d.name, false, d.body.span?, d.body.tally, .gather d.body.entryList⟩

namespace FuncDecl

variable {d : FuncDecl} {b : BlockDecl} {l : Layout}

/-- The layout that shows in the first block with one. -/
def layout? (d : FuncDecl) : Option Layout := d.blocks.findSome? (·.body.layout?)

/-- The function that is declared. -/
def func (d : FuncDecl) : Func :=
  ⟨d.name, d.place, d.layout?.getD .line, d.blocks.map BlockDecl.block⟩

/-- What a reader holds of a function after its declaration. -/
def opened (d : FuncDecl) : OpenFunc :=
  ⟨d.name, d.place, d.layout?, (d.blocks.map BlockDecl.block).reverse⟩

def push (d : FuncDecl) (b : BlockDecl) : FuncDecl := { d with blocks := d.blocks ++ [b] }

theorem close_opened (d : FuncDecl) : d.opened.close = d.func := by
  rw [OpenFunc.close, opened, List.reverse_reverse]
  rfl

theorem lines_push (d : FuncDecl) (b : BlockDecl) : (d.push b).lines = d.lines ++ b.lines := by
  simp [lines, push]

theorem layout?_push (d : FuncDecl) (b : BlockDecl) :
    (d.push b).layout? = d.layout?.or b.body.layout? := by
  rw [layout?, push, List.findSome?_append]
  simp [layout?]

theorem uniform_iff : d.Uniform ↔ ∀ b ∈ d.blocks, ∀ c ∈ d.blocks, ∀ l m,
    b.body.layout? = some l → c.body.layout? = some m → l = m := by
  constructor
  · intro h b hb c hc l m hl hm
    cases l <;> cases m
    · rfl
    · exact absurd ⟨⟨b, hb, hl⟩, ⟨c, hc, hm⟩⟩ h
    · exact absurd ⟨⟨c, hc, hm⟩, ⟨b, hb, hl⟩⟩ h
    · rfl
  · intro h hmixed
    obtain ⟨⟨b, hb, hl⟩, ⟨c, hc, hm⟩⟩ := hmixed
    cases h b hb c hc _ _ hl hm

theorem uniform_of_subset {c : FuncDecl} (h : d.Uniform) (hs : ∀ b ∈ c.blocks, b ∈ d.blocks) :
    c.Uniform := by
  rw [uniform_iff] at h ⊢
  intro b hb b' hb'
  exact h b (hs b hb) b' (hs b' hb')

/-- The layouts that show in the blocks of a uniform function are that of the function. -/
theorem layout?_of_mem (hd : d.Uniform) (hb : b ∈ d.blocks) (hl : b.body.layout? = some l) :
    d.layout? = some l := by
  cases h : d.layout? with
  | none =>
    rw [layout?, List.findSome?_eq_none_iff] at h
    rw [h b hb] at hl
    cases hl
  | some m =>
    obtain ⟨c, hc, hm⟩ := List.exists_of_findSome?_eq_some h
    rw [uniform_iff.1 hd b hb c hc l m hl hm]

/-- The layout that shows in another block must not differ from that of the function. -/
theorem uniform_push_iff : (d.push b).Uniform ↔
    d.Uniform ∧ ∀ l, b.body.layout? = some l → d.layout?.getD l = l := by
  constructor
  · intro h
    refine ⟨uniform_of_subset h fun c hc => List.mem_append_left _ hc, ?_⟩
    intro l hl
    cases hm : d.layout? with
    | none => rfl
    | some m =>
      obtain ⟨c, hc, hm⟩ := List.exists_of_findSome?_eq_some hm
      exact uniform_iff.1 h c (List.mem_append_left _ hc) b (by simp [push]) m l hm hl
  · intro h
    obtain ⟨hd, hb⟩ := h
    have hold : ∀ c ∈ d.blocks, ∀ l m, b.body.layout? = some l → c.body.layout? = some m →
        m = l := by
      intro c hc l m hl hm
      have hfits := hb l hl
      rwa [layout?_of_mem hd hc hm] at hfits
    rw [uniform_iff] at hd ⊢
    intro c hc c' hc' l m hl hm
    rcases List.mem_append.1 hc with ho | hn <;> rcases List.mem_append.1 hc' with ho' | hn'
    · exact hd c ho c' ho' l m hl hm
    · obtain rfl := List.mem_singleton.1 hn'
      exact hold c ho m l hm hl
    · obtain rfl := List.mem_singleton.1 hn
      exact (hold c' ho' l m hl hm).symm
    · obtain rfl := List.mem_singleton.1 hn
      obtain rfl := List.mem_singleton.1 hn'
      exact Option.some.inj (hl.symm.trans hm)

end FuncDecl

end Outline

end LineCost
