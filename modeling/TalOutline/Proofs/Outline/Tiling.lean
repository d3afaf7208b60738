import TalOutline.Proofs.Outline.Closing
import TalOutline.Proofs.Outline.Extent

/-!
Sections and pages cover the document from the first directive on without gap or overlap, and the
pages of a section cover it from its first page on.
-/
namespace TalOutline.Heading

/-- Entries that cover the lines from one up to another, each going on where the last one ended. -/
def Tiles (low high : Nat) : List (Tree Item) → Prop
  | [] => low = high
  | t :: rest => t.label.first = low ∧ low ≤ t.label.last ∧ Tiles (t.label.last + 1) high rest

namespace Tiles

theorem inOrder {low high : Nat} {l : List (Tree Item)} (h : Tiles low high l) :
    InOrder (·.label.first) (·.label.last + 1) low high l := by
  induction l generalizing low with
  | nil => exact Nat.le_of_eq h
  | cons t rest ih =>
    obtain ⟨rfl, hle, hr⟩ := h
    exact ⟨Nat.le_refl _, Nat.lt_succ_of_le hle, ih hr⟩

theorem append {low mid high : Nat} {l k : List (Tree Item)} (hl : Tiles low mid l)
    (hk : Tiles mid high k) : Tiles low high (l ++ k) := by
  induction l generalizing low with
  | nil =>
    obtain rfl : low = mid := hl
    exact hk
  | cons t rest ih =>
    obtain ⟨hf, hle, hr⟩ := hl
    exact ⟨hf, hle, ih hr⟩

end Tiles

/-- The entry of a page: it has neither detail nor children. -/
def IsPage (t : Tree Item) : Prop :=
  t.label.kind = .page ∧ t.label.detail = none ∧ t.children = []

/-- The entry of a section: its children are pages that cover it from the first of them on. -/
structure IsSection (t : Tree Item) : Prop where
  kind : t.label.kind = .sect
  detail : t.label.detail = none
  page : ∀ c ∈ t.children, IsPage c
  tiles : ∃ low, t.label.first < low ∧ Tiles low (t.label.last + 1) t.children

/-- What holds of the outline of headings, whichever of them have been put in front. -/
structure Outlined.Tiled (count : Nat) (o : Outlined) : Prop where
  isPage : ∀ t ∈ o.pages, IsPage t
  pages : Tiles o.pageNext o.sectionNext o.pages
  isSection : ∀ t ∈ o.sections, IsSection t
  sections : Tiles o.sectionNext count o.sections

/-- A heading in front of all others keeps the outline tiled. -/
theorem Outlined.Tiled.cons {count : Nat} {o : Outlined} (ho : o.Tiled count) {h : Heading}
    (hline : h.line < o.pageNext) (hkind : h.kind = .sect ∨ h.kind = .page) :
    (o.cons h).Tiled count := by
  have hle := ho.pages.inOrder.le
  unfold Outlined.cons
  split
  · -- A section takes all pages behind it that no other section has taken.
    next hs =>
    have hlast : o.sectionNext - 1 + 1 = o.sectionNext := by omega
    refine ⟨nofun, rfl, ?_, ?_⟩
    · intro t ht
      rcases List.mem_cons.1 ht with rfl | hm
      · exact ⟨hs, rfl, ho.isPage, o.pageNext, hline, by
          simpa only [Tree.label, Tree.children, Heading.item, hlast] using ho.pages⟩
      · exact ho.isSection t hm
    · refine ⟨rfl, ?_, ?_⟩
      · simp only [Tree.label, Heading.item]
        omega
      · simpa only [Tree.label, Heading.item, hlast] using ho.sections
  · next hs =>
    have hlast : o.pageNext - 1 + 1 = o.pageNext := by omega
    refine ⟨?_, ⟨rfl, ?_, ?_⟩, ho.isSection, ho.sections⟩
    · intro t ht
      rcases List.mem_cons.1 ht with rfl | hm
      · exact ⟨hkind.resolve_left hs, rfl, rfl⟩
      · exact ho.isPage t hm
    · simp only [Tree.leaf, Tree.label, Heading.item]
      omega
    · simpa only [Tree.leaf, Tree.label, Heading.item, hlast] using ho.pages

theorem pageNext_outline_cons (count : Nat) (h : Heading) (rest : List Heading) :
    (outline count (h :: rest)).pageNext = h.line := by
  unfold outline Outlined.cons
  split <;> rfl

theorem outline_tiled {count : Nat} {hs : List Heading} (hlt : ∀ h ∈ hs, h.line < count)
    (hkind : ∀ h ∈ hs, h.kind = .sect ∨ h.kind = .page) (horder : hs.Pairwise (·.line < ·.line)) :
    (outline count hs).Tiled count := by
  induction hs with
  | nil => exact ⟨nofun, rfl, nofun, rfl⟩
  | cons h rest ih =>
    obtain ⟨hfirst, hrest⟩ := List.pairwise_cons.1 horder
    have ho := ih (fun g hg => hlt g (List.mem_cons_of_mem h hg))
      (fun g hg => hkind g (List.mem_cons_of_mem h hg)) hrest
    refine ho.cons ?_ (hkind h List.mem_cons_self)
    cases rest with
    | nil => exact hlt h List.mem_cons_self
    | cons g rest =>
      rw [pageNext_outline_cons]
      exact hfirst g List.mem_cons_self

theorem line_of_ofLine? {n : Nat} {line : Line} {h : Heading} (hh : ofLine? n line = some h) :
    h.line = n ∧ (h.kind = .sect ∨ h.kind = .page) := by
  unfold ofLine? at hh
  split at hh
  · obtain rfl := Option.some.inj hh
    exact ⟨rfl, .inl rfl⟩
  · obtain ⟨title, -, rfl⟩ := Option.map_eq_some_iff.1 hh
    exact ⟨rfl, .inr rfl⟩

theorem ofLines_mem {lines : List Line} {h : Heading} (hh : h ∈ ofLines lines) :
    h.line < lines.length ∧ (h.kind = .sect ∨ h.kind = .page) := by
  obtain ⟨⟨line, n⟩, hm, ho⟩ := List.mem_filterMap.1 hh
  obtain ⟨rfl, hk⟩ := line_of_ofLine? ho
  exact ⟨(List.mem_zipIdx' hm).1, hk⟩

theorem ofLines_pairwise (lines : List Line) : (ofLines lines).Pairwise (·.line < ·.line) := by
  have hz : lines.zipIdx.Pairwise fun a b => a.2 < b.2 := by
    rw [← List.pairwise_map, List.zipIdx_map_snd]
    exact List.pairwise_lt_range'
  refine hz.filterMap _ ?_
  rintro ⟨a, m⟩ ⟨b, n⟩ hab h hh g hg
  obtain ⟨rfl, -⟩ := line_of_ofLine? hh
  obtain ⟨rfl, -⟩ := line_of_ofLine? hg
  exact hab

theorem outline_ofLines_tiled (lines : List Line) :
    (outline lines.length (ofLines lines)).Tiled lines.length :=
  outline_tiled (fun _ hh => (ofLines_mem hh).1) (fun _ hh => (ofLines_mem hh).2)
    (ofLines_pairwise lines)

/-- Before the sections stand the pages without a section, and all of them cover the document. -/
theorem trees_tile (lines : List Line) :
    ∃ pages sections low, trees lines = pages ++ sections ∧ (∀ t ∈ pages, IsPage t) ∧
      (∀ t ∈ sections, IsSection t) ∧ Tiles low lines.length (trees lines) := by
  have ho := outline_ofLines_tiled lines
  rw [trees_eq]
  exact ⟨_, _, _, rfl, ho.isPage, ho.isSection, ho.pages.append ho.sections⟩

end TalOutline.Heading
