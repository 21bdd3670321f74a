import HyChat.Agents.Multimodal
import Mathlib

/-!
# The budget of the PDF attachments

The text of the pages is collected section by section until the shared budget is used up. The
budget counts what is put into the attachments, the separators included, so that what a history
yields is never longer than the limit, and an attachment says that it was cut exactly when it was.

Why the accounting needs an invariant. The budget is one pair of numbers passed along the whole
history and counted up deep inside a loop over the pages of one attachment. That the count is what
the texts have used is a fact about every beginning of the history, and is `Budgeted`; it is
carried by the lemma about one attachment more (`Budgeted.report`), and everything else about a
block, whether it is a PDF, an image or a text, leaves the budget alone (`ItemStep`).

What "exact" means. An attachment shows a beginning of its sections: whole ones, and possibly one
that is cut. It carries the notice about the characters if and only if something within the page
limit is missing; `Cut` is the independent description the notice is compared with. That it is not
confused with the notice about the pages is part of it, since the notices are read off the text.

Nothing is assumed about the reader: it may fail for an attachment, or yield pages without text,
and what it shows then is exact as well. Sizes are those of the decoded bytes; the estimate that is
made before decoding is the subject of `Agents/PdfSizes`.
-/

set_option autoImplicit false

namespace HyChat

open Lib

namespace Multimodal

/-! ## Sections -/

/-- The section of a page within the page limit, unless it has no text. -/
def sectionOf (maxPages pageNumber : Nat) : PdfPage → List (List Char)
  | .page (.ok raw) =>
      if pageNumber ≤ maxPages ∧ ¬(Py.strip raw.toList).isEmpty then
        [pageSection pageNumber (Py.strip raw.toList)]
      else []
  | _ => []

/-- The sections of the pages with text within the page limit, uncut -/
def wholeSections (maxPages : Nat) : Nat → List PdfPage → List (List Char)
  | _, [] => []
  | pageNumber, page :: pages =>
      sectionOf maxPages pageNumber page ++ wholeSections maxPages (pageNumber + 1) pages

theorem wholeSections_of_gt {maxPages : Nat} : ∀ {pageNumber : Nat} (pages : List PdfPage),
    pageNumber > maxPages → wholeSections maxPages pageNumber pages = [] := by
  intro pageNumber pages
  induction pages generalizing pageNumber with
  | nil =>
    intro _
    rfl
  | cons page pages ih =>
    intro h
    have hpage : sectionOf maxPages pageNumber page = [] := by
      unfold sectionOf
      split
      · exact if_neg fun hle => Nat.not_le.mpr h hle.1
      · rfl
    rw [wholeSections, hpage, ih (Nat.lt_succ_of_lt h)]
    rfl

theorem joinSections_append (sections : List (List Char)) (section_ : List Char) :
    (joinSections (sections ++ [section_])).length =
      (joinSections sections).length + (if sections.isEmpty then 0 else 2) + section_.length := by
  unfold joinSections
  induction sections with
  | nil => simp [List.intercalate]
  | cons first rest ih =>
    cases rest with
    | nil =>
      simp [List.intercalate, List.intersperse]
      omega
    | cons second rest =>
      simp only [List.cons_append, List.intercalate_cons_cons, List.length_append] at ih ⊢
      rw [ih]
      simp
      omega

/-- Every section is the beginning of a whole one, in the same order. -/
def Begin (shown whole : List (List Char)) : Prop :=
  ∀ (i : Nat) (section_ : List Char), shown[i]? = some section_ →
    ∃ w, whole[i]? = some w ∧ section_ <+: w

/-! ## The loop over the pages

The induction is on the list of pages, with the budget and the collected sections as they are at
the page. -/

variable {p : PdfSettings}

/-- What the loop adds to what it has collected: the sections it shows are the whole ones unless it
    says that the text is cut. -/
structure Shows (p : PdfSettings) (pageNumber : Nat) (pages : List PdfPage) (acc e : Extraction)
    (shown : List (List Char)) : Prop where
  texts : e.pageTexts = acc.pageTexts ++ shown
  begins : Begin shown (wholeSections p.maxPages pageNumber pages)
  truncated : e.textTruncated = true ↔ shown ≠ wholeSections p.maxPages pageNumber pages
  pages : acc.extractedPages < pageNumber → acc.extractedPages ≤ p.maxPages →
    e.extractedPages ≤ p.maxPages
  chars : e.extractedChars + (joinSections acc.pageTexts).length =
    acc.extractedChars + (joinSections e.pageTexts).length
  limit : acc.extractedChars ≤ p.textMaxChars → e.extractedChars ≤ p.textMaxChars

theorem Begin.nil (whole : List (List Char)) : Begin [] whole := by
  intro i section_ h
  cases h

theorem Begin.cons {shown whole : List (List Char)} (h : Begin shown whole) {section_ w : List Char}
    (hw : section_ <+: w) : Begin (section_ :: shown) (w :: whole) := by
  intro i s hs
  cases i with
  | zero =>
    cases hs
    exact ⟨w, rfl, hw⟩
  | succ i => exact h i s hs

/-- A page that is passed over adds no section. -/
theorem Shows.skip {pageNumber : Nat} {page : PdfPage} {pages : List PdfPage} {acc e : Extraction}
    {shown : List (List Char)} (hle : pageNumber ≤ p.maxPages)
    (hpage : sectionOf p.maxPages pageNumber page = [])
    (h : Shows p (pageNumber + 1) pages { acc with extractedPages := acc.extractedPages + 1 } e shown) :
    Shows p pageNumber (page :: pages) acc e shown := by
  have hwhole : wholeSections p.maxPages pageNumber (page :: pages) =
      wholeSections p.maxPages (pageNumber + 1) pages := by
    rw [wholeSections, hpage, List.nil_append]
  refine ⟨h.texts, ?_, ?_, ?_, h.chars, h.limit⟩
  · rw [hwhole]
    exact h.begins
  · rw [hwhole]
    exact h.truncated
  · intro hlt _
    exact h.pages (Nat.succ_lt_succ hlt) (Nat.le_trans hlt hle)

/-- The page has a section of its own. -/
theorem wholeSections_cons {maxPages pageNumber : Nat} {page : PdfPage} {pages : List PdfPage}
    {section_ : List Char} (hpage : sectionOf maxPages pageNumber page = [section_]) :
    wholeSections maxPages pageNumber (page :: pages) =
      section_ :: wholeSections maxPages (pageNumber + 1) pages := by
  rw [wholeSections, hpage, List.singleton_append]

/-- A section that fits is shown as it is. -/
theorem Shows.next {pageNumber : Nat} {page : PdfPage} {pages : List PdfPage} {acc e : Extraction}
    {section_ : List Char} {shown : List (List Char)} (hle : pageNumber ≤ p.maxPages)
    (hpage : sectionOf p.maxPages pageNumber page = [section_])
    (hfits : acc.extractedChars + (if acc.pageTexts.isEmpty then 0 else 2) + section_.length ≤
      p.textMaxChars)
    (h : Shows p (pageNumber + 1) pages { acc with
      extractedPages := acc.extractedPages + 1
      pageTexts := acc.pageTexts ++ [section_]
      extractedChars :=
        acc.extractedChars + (if acc.pageTexts.isEmpty then 0 else 2) + section_.length } e shown) :
    Shows p pageNumber (page :: pages) acc e (section_ :: shown) := by
  refine ⟨?_, ?_, ?_, ?_, ?_, ?_⟩
  · rw [h.texts, List.append_assoc, List.singleton_append]
  · rw [wholeSections_cons hpage]
    exact h.begins.cons (List.prefix_refl _)
  · rw [wholeSections_cons hpage, h.truncated]
    simp
  · intro hlt _
    exact h.pages (Nat.succ_lt_succ hlt) (Nat.le_trans hlt hle)
  · have hchars := h.chars
    simp only [joinSections_append] at hchars
    omega
  · intro _
    exact h.limit hfits

/-- A section that does not fit is cut to what is left of the budget. -/
theorem Shows.cut {pageNumber : Nat} {page : PdfPage} {pages : List PdfPage} {acc : Extraction}
    {section_ : List Char} {remaining : Nat} (hle : pageNumber ≤ p.maxPages)
    (hpage : sectionOf p.maxPages pageNumber page = [section_])
    (hrest : acc.extractedChars + (if acc.pageTexts.isEmpty then 0 else 2) + remaining =
      p.textMaxChars) (hlong : remaining < section_.length) :
    Shows p pageNumber (page :: pages) acc { acc with
      extractedPages := acc.extractedPages + 1
      pageTexts := acc.pageTexts ++ [section_.take remaining]
      extractedChars := p.textMaxChars
      textTruncated := true } [section_.take remaining] := by
  have htake : (section_.take remaining).length = remaining :=
    List.length_take_of_le (Nat.le_of_lt hlong)
  refine ⟨rfl, ?_, ?_, ?_, ?_, fun _ => Nat.le_refl _⟩
  · rw [wholeSections_cons hpage]
    exact (Begin.nil _).cons (List.take_prefix _ _)
  · rw [wholeSections_cons hpage]
    simp only [ne_eq, List.cons.injEq, true_iff, not_and]
    intro he
    rw [← he, htake] at hlong
    exact absurd hlong (Nat.lt_irrefl _)
  · intro hlt _
    exact Nat.le_trans hlt hle
  · simp only [joinSections_append, htake]
    omega

/-- **The loop over the pages** shows whole sections until the budget cuts one. -/
theorem extractPages_shows : ∀ (pages : List PdfPage) {pageNumber : Nat} {acc e : Extraction},
    extractPages p pageNumber pages acc = .ok e → acc.textTruncated = false →
      ∃ shown, Shows p pageNumber pages acc e shown := by
  intro pages
  -- on the pages, with what has been collected before each of them
  induction pages with
  | nil =>
    intro pageNumber acc e h hacc
    cases h
    refine ⟨[], by simp, .nil _, ?_, fun _ hle => hle, rfl, id⟩
    rw [hacc]
    simp [wholeSections]
  | cons page pages ih =>
    intro pageNumber acc e h hacc
    cases page with
    | unreadable error => cases h
    | page extractText =>
      unfold extractPages at h
      split at h
      · rename_i hgt
        cases h
        -- behind the page limit there is no whole section
        refine ⟨[], by simp, .nil _, ?_, fun _ hle => hle, rfl, id⟩
        rw [wholeSections_of_gt _ hgt, hacc]
        simp
      · rename_i hle
        rw [Nat.not_lt] at hle
        cases extractText with
        | error error => cases h
        | ok raw =>
          simp only at h
          split at h
          · rename_i hempty
            -- a page without text is passed over
            obtain ⟨shown, hshown⟩ := ih h hacc
            refine ⟨shown, hshown.skip hle ?_⟩
            exact if_neg fun hc => hc.2 hempty
          · rename_i hempty
            have hsection : sectionOf p.maxPages pageNumber (.page (.ok raw)) =
                [pageSection pageNumber (Py.strip raw.toList)] := if_pos ⟨hle, hempty⟩
            generalize pageSection pageNumber (Py.strip raw.toList) = section_ at h hsection
            have hsize : ∃ separatorSize : Nat,
                (if acc.pageTexts.isEmpty then 0 else 2 : Nat) = separatorSize := ⟨_, rfl⟩
            obtain ⟨separatorSize, hsize⟩ := hsize
            rw [hsize] at h
            split at h
            · -- nothing of the section fits
              cases h
              refine ⟨[], by simp, .nil _, ?_, ?_, rfl, id⟩
              · rw [wholeSections_cons hsection]
                simp
              · intro hlt _
                exact Nat.le_trans hlt hle
            · rename_i hroom
              split at h
              · -- the section is cut
                rename_i hlong
                cases h
                refine ⟨_, Shows.cut hle hsection ?_ ?_⟩
                · rw [hsize]
                  omega
                · omega
              · -- the section fits
                rename_i hshort
                obtain ⟨shown, hshown⟩ := ih h hacc
                rw [← hsize] at hshown
                refine ⟨section_ :: shown, hshown.next hle hsection ?_⟩
                rw [hsize]
                omega

/-! ## One block after another -/

variable {supportsImages : Bool}

/-- The blocks of a history, one after another -/
def normalizeBlocks (p : PdfSettings) (supportsImages : Bool) :
    List Block → PdfRun → Except String (List Block × PdfRun)
  | [], run => .ok ([], run)
  | block :: blocks, run =>
      match normalizeContentBlock p supportsImages block run with
      | .error e => .error e
      | .ok (block, run) =>
          match normalizeBlocks p supportsImages blocks run with
          | .error e => .error e
          | .ok (blocks, run) => .ok (block :: blocks, run)

theorem normalizeBlocks_cons {block : Block} {blocks out : List Block} {run run' : PdfRun}
    (h : normalizeBlocks p supportsImages (block :: blocks) run = .ok (out, run')) :
    ∃ first mid rest, normalizeContentBlock p supportsImages block run = .ok (first, mid) ∧
      normalizeBlocks p supportsImages blocks mid = .ok (rest, run') ∧ out = first :: rest := by
  unfold normalizeBlocks at h
  split at h
  · cases h
  · rename_i first mid hfirst
    split at h
    · cases h
    · rename_i rest last hrest
      cases h
      exact ⟨first, mid, rest, hfirst, hrest, rfl⟩

/-- What is left of the budget after one part of a history is what the next part starts with. -/
theorem normalizeBlocks_append {blocks more out out' : List Block} {run mid run' : PdfRun}
    (h : normalizeBlocks p supportsImages blocks run = .ok (out, mid))
    (h' : normalizeBlocks p supportsImages more mid = .ok (out', run')) :
    normalizeBlocks p supportsImages (blocks ++ more) run = .ok (out ++ out', run') := by
  induction blocks generalizing run out with
  | nil =>
    cases h
    exact h'
  | cons block blocks ih =>
    obtain ⟨first, next, rest, hfirst, hrest, rfl⟩ := normalizeBlocks_cons h
    simp only [List.cons_append, normalizeBlocks, hfirst, ih hrest]

/-- What becomes of an item -/
inductive ItemStep (p : PdfSettings) (supportsImages : Bool) (run : PdfRun) : Json → Json → PdfRun → Prop
  | block {block out : Block} {run' : PdfRun}
      (h : normalizeContentBlock p supportsImages block run = .ok (out, run')) :
      ItemStep p supportsImages run (.obj block) (.obj out) run'
  | other {item : Json} (h : ∀ block, item ≠ .obj block) : ItemStep p supportsImages run item item run

theorem normalizeItems_cons {item : Json} {items out : List Json} {run run' : PdfRun}
    (h : normalizeItems p supportsImages (item :: items) run = .ok (out, run')) :
    ∃ first mid rest, ItemStep p supportsImages run item first mid ∧
      normalizeItems p supportsImages items mid = .ok (rest, run') ∧ out = first :: rest := by
  cases item with
  | obj block =>
    simp only [normalizeItems] at h
    split at h
    · cases h
    · rename_i first mid hfirst
      split at h
      · cases h
      · rename_i rest last hrest
        cases h
        exact ⟨.obj first, mid, rest, .block hfirst, hrest, rfl⟩
  | _ =>
    simp only [normalizeItems] at h
    split at h
    · cases h
    · rename_i rest last hrest
      cases h
      refine ⟨_, run, rest, .other ?_, hrest, rfl⟩
      intro block he
      cases he

theorem normalizeItems_blocks {items out : List Json} {run run' : PdfRun}
    (h : normalizeItems p supportsImages items run = .ok (out, run')) :
    normalizeBlocks p supportsImages (contentBlocks (.arr items)) run =
      .ok (contentBlocks (.arr out), run') := by
  induction items generalizing run out with
  | nil =>
    cases h
    rfl
  | cons item items ih =>
    obtain ⟨first, mid, rest, hfirst, hrest, rfl⟩ := normalizeItems_cons h
    have hblocks := ih hrest
    simp only [contentBlocks] at hblocks ⊢
    cases hfirst with
    | block hblock => simp only [List.filterMap_cons, normalizeBlocks, hblock, hblocks]
    | other hitem =>
      cases item with
      | obj block => exact absurd rfl (hitem block)
      | _ => exact hblocks

theorem normalizeMultimodalContent_blocks {content out : Json} {run run' : PdfRun}
    (h : normalizeMultimodalContent p supportsImages content run = .ok (out, run')) :
    normalizeBlocks p supportsImages (contentBlocks content) run =
      .ok (contentBlocks out, run') := by
  unfold normalizeMultimodalContent at h
  split at h
  · rename_i block
    split at h
    · cases h
    · rename_i first mid hfirst
      cases h
      simp only [contentBlocks, normalizeBlocks, hfirst]
  · rename_i items
    split at h
    · cases h
    · rename_i rest last hrest
      cases h
      exact normalizeItems_blocks hrest
  · rename_i hobj harr
    cases h
    cases content with
    | obj block => exact absurd rfl (hobj block)
    | arr items => exact absurd rfl (harr items)
    | _ => rfl

theorem normalizeEach_blocks {messages out : List Message} {run run' : PdfRun}
    (h : normalizeEach p supportsImages messages run = .ok (out, run')) :
    normalizeBlocks p supportsImages (historyBlocks messages) run =
      .ok (historyBlocks out, run') := by
  induction messages generalizing run out with
  | nil =>
    cases h
    rfl
  | cons message messages ih =>
    unfold normalizeEach at h
    split at h
    · cases h
    · rename_i content mid hcontent
      split at h
      · cases h
      · rename_i rest last hrest
        cases h
        have hfirst := normalizeMultimodalContent_blocks hcontent
        have hblocks := normalizeBlocks_append hfirst (ih hrest)
        simp only [historyBlocks, List.flatMap_cons, Message.content_withContent] at hblocks ⊢
        exact hblocks

/-! ## What an attachment shows -/

/-- A whole section is shown only in part, or not at all. -/
def Cut (shown whole : List (List Char)) : Prop :=
  ∃ (i : Nat) (w : List Char), whole[i]? = some w ∧ shown[i]? ≠ some w

theorem Begin.cut_iff {shown whole : List (List Char)} (h : Begin shown whole) :
    Cut shown whole ↔ shown ≠ whole := by
  constructor
  · rintro ⟨i, w, hw, hs⟩ rfl
    exact hs hw
  · intro hne
    refine Classical.byContradiction fun hcut => hne (List.ext_getElem? fun i => ?_)
    cases hw : whole[i]? with
    | some w =>
      refine Classical.byContradiction fun hs => hcut ⟨i, w, hw, hs⟩
    | none =>
      cases hs : shown[i]? with
      | none => rfl
      | some section_ =>
        obtain ⟨w, hw', _⟩ := h i section_ hs
        rw [hw] at hw'
        cases hw'

/-- The characters of the extracted text in an attachment, the separators included -/
def PdfReport.shownChars (r : PdfReport) : Nat :=
  match r.parsed with
  | none => 0
  | some (_, e) => (joinSections e.pageTexts).length

/-- What an attachment shows and says when `earlier` characters have been shown before it. -/
structure PdfReport.Exact (p : PdfSettings) (earlier : Nat) (r : PdfReport) : Prop where
  unparsed : r.parsed = none ↔ p.textMaxChars ≤ earlier
  notParsed : r.parsed = none → r.text p = unparsedText p r.filename
  read : ∀ pages e, r.parsed = some (pages, e) → p.pdfReader r.pdfBytes = .ok pages
  pages : ∀ pages e, r.parsed = some (pages, e) → e.extractedPages ≤ p.maxPages
  begins : ∀ pages e, r.parsed = some (pages, e) →
    Begin e.pageTexts (wholeSections p.maxPages 1 pages)
  notice : ∀ pages e, r.parsed = some (pages, e) → ∃ suffix ∈ ["", textNotice p, pagesNotice p],
    r.text p = extractedText r.filename e.pageTexts ++ suffix ∧
      (suffix = textNotice p ↔ Cut e.pageTexts (wholeSections p.maxPages 1 pages))

theorem textNotice_eq : ∃ rest, textNotice p = "\n\n[整段消息历史" ++ rest := by
  refine ⟨"的 PDF 内容过长，已截取前 " ++ toString p.textMaxChars ++ " 个字符。]", ?_⟩
  rw [← String.append_assoc, ← String.append_assoc]
  rfl

theorem pagesNotice_eq : ∃ rest, pagesNotice p = "\n\n[PDF " ++ rest := by
  refine ⟨"页数过多，仅提取前 " ++ toString p.maxPages ++ " 页。]", ?_⟩
  rw [← String.append_assoc, ← String.append_assoc]
  rfl

theorem textNotice_ne_empty : "" ≠ textNotice p := by
  obtain ⟨rest, hrest⟩ := textNotice_eq (p := p)
  rw [hrest]
  simp

/-- The two notices can be told apart. -/
theorem pagesNotice_ne_textNotice : pagesNotice p ≠ textNotice p := by
  obtain ⟨rest, hrest⟩ := textNotice_eq (p := p)
  obtain ⟨pages, hpages⟩ := pagesNotice_eq (p := p)
  rw [hrest, hpages]
  intro h
  have hlist := congrArg String.toList h
  rw [String.toList_append, String.toList_append] at hlist
  simp at hlist

/-- An attachment that is reached with nothing left shows nothing and says so. -/
theorem exact_unparsed {earlier : Nat} (hfull : p.textMaxChars ≤ earlier) (filename : String)
    (pdfBytes : List UInt8) : (PdfReport.mk filename pdfBytes none).Exact p earlier where
  unparsed := iff_of_true rfl hfull
  notParsed _ := rfl
  read _ _ h := by cases h
  pages _ _ h := by cases h
  begins _ _ h := by cases h
  notice _ _ h := by cases h

/-- What the loop over the pages has collected is shown under the notice it asks for. -/
theorem exact_parsed {earlier : Nat} {filename : String} {pdfBytes : List UInt8}
    {pages : List PdfPage} {e : Extraction} (hroom : ¬p.textMaxChars ≤ earlier)
    (hpages : p.pdfReader pdfBytes = .ok pages)
    (he : extractPages p 1 pages ⟨[], false, false, 0, earlier⟩ = .ok e) :
    (PdfReport.mk filename pdfBytes (some (pages, e))).Exact p earlier := by
  obtain ⟨shown, hshown⟩ := extractPages_shows pages he rfl
  have htexts : e.pageTexts = shown := hshown.texts
  have hbegins := hshown.begins
  have htruncated := hshown.truncated
  rw [← htexts] at hbegins htruncated
  refine ⟨?_, ?_, ?_, ?_, ?_, ?_⟩
  · exact iff_of_false (by simp) hroom
  · intro h
    cases h
  · intro pages' e' h
    cases h
    exact hpages
  · intro pages' e' h
    cases h
    exact hshown.pages Nat.one_pos (Nat.zero_le _)
  · intro pages' e' h
    cases h
    exact hbegins
  · intro pages' e' h
    cases h
    rw [hbegins.cut_iff, ← htruncated]
    cases htext : e.textTruncated with
    | true =>
      refine ⟨textNotice p, by simp, ?_, iff_of_true rfl rfl⟩
      simp only [PdfReport.text, htext, if_true]
    | false =>
      cases hmore : e.pagesTruncated with
      | true =>
        refine ⟨pagesNotice p, by simp, ?_, iff_of_false pagesNotice_ne_textNotice (by simp)⟩
        simp [PdfReport.text, htext, hmore]
      | false =>
        refine ⟨"", by simp, ?_, iff_of_false textNotice_ne_empty (by simp)⟩
        simp [PdfReport.text, htext, hmore]

/-- One attachment, with the budget it finds. -/
theorem pdfFileBlockToText_spec {block : Block} {data : String} {budget budget' : PdfBudget}
    {report : PdfReport} (h : pdfFileBlockToText p block data budget = .ok (report, budget')) :
    report.filename = attachmentFilename block ∧ p.b64decode data = some report.pdfBytes ∧
      budget'.decodedBytes = budget.decodedBytes + report.pdfBytes.length ∧
      budget'.decodedBytes ≤ p.byteLimit ∧
      budget'.extractedChars = budget.extractedChars + report.shownChars ∧
      (budget.extractedChars ≤ p.textMaxChars → budget'.extractedChars ≤ p.textMaxChars) ∧
      report.Exact p budget.extractedChars := by
  unfold pdfFileBlockToText at h
  simp only at h
  split at h
  · cases h
  · rename_i pdfBytes hdecode
    split at h
    · cases h
    · split at h
      · cases h
      · rename_i hbytes
        rw [Nat.not_lt] at hbytes
        split at h
        · -- the budget is used up
          rename_i hfull
          cases h
          exact ⟨rfl, hdecode, rfl, hbytes, rfl, id, exact_unparsed hfull _ _⟩
        · rename_i hroom
          split at h
          · cases h
          · rename_i pages hpages
            split at h
            · cases h
            · rename_i e he
              cases h
              obtain ⟨shown, hshown⟩ := extractPages_shows pages he rfl
              exact ⟨rfl, hdecode, rfl, hbytes, hshown.chars, hshown.limit,
                exact_parsed hroom hpages he⟩

/-! ## The whole history

`Normalized` is what the loop over the messages is shown to keep, block by block. -/

/-- What the budget counts is what the attachments hold, and each of them is exact. -/
structure Budgeted (p : PdfSettings) (run : PdfRun) : Prop where
  decoded : (run.reports.map fun r => r.pdfBytes.length).sum = run.budget.decodedBytes
  decodedLimit : run.budget.decodedBytes ≤ p.byteLimit
  extracted : (run.reports.map PdfReport.shownChars).sum = run.budget.extractedChars
  extractedLimit : run.budget.extractedChars ≤ p.textMaxChars
  exact : ∀ before r after, run.reports = before ++ r :: after →
    r.Exact p (before.map PdfReport.shownChars).sum

theorem Budgeted.start : Budgeted p .start := by
  refine ⟨rfl, Nat.zero_le _, rfl, Nat.zero_le _, ?_⟩
  intro before r after h
  cases before <;> cases h

theorem append_singleton_cases {α : Type} {xs before after : List α} {x r : α}
    (h : xs ++ [x] = before ++ r :: after) :
    (before = xs ∧ r = x) ∨ ∃ rest, xs = before ++ r :: rest := by
  rcases List.eq_nil_or_concat after with rfl | ⟨rest, last, rfl⟩
  · obtain ⟨hxs, hx⟩ := List.append_inj' h rfl
    cases hx
    exact .inl ⟨hxs.symm, rfl⟩
  · right
    have h' : xs ++ [x] = (before ++ r :: rest) ++ [last] := by simpa using h
    exact ⟨rest, (List.append_inj' h' rfl).1⟩

/-- **An attachment more** keeps what the budget counts. -/
theorem Budgeted.report {run : PdfRun} (hb : Budgeted p run) {block : Block} {data : String}
    {budget : PdfBudget} {report : PdfReport}
    (h : pdfFileBlockToText p block data run.budget = .ok (report, budget)) :
    Budgeted p ⟨budget, run.reports ++ [report]⟩ := by
  obtain ⟨_, _, hdecoded, hbytes, hchars, hlimit, hexact⟩ := pdfFileBlockToText_spec h
  refine ⟨?_, hbytes, ?_, hlimit hb.extractedLimit, ?_⟩
  · simp [hb.decoded, hdecoded]
  · simp [hb.extracted, hchars]
  · intro before r after hreports
    rcases append_singleton_cases hreports with ⟨rfl, rfl⟩ | ⟨rest, hrest⟩
    · rw [hb.extracted]
      exact hexact
    · exact hb.exact before r rest hrest

/-- The blocks with the data of a PDF, each with what it has become -/
def attachments (blocks out : List Block) : List (Block × Block) :=
  (blocks.zip out).filter fun pair => (pdfData pair.1).isSome

/-- The attachment is decoded, and a text stands in its place. -/
def Replaced (p : PdfSettings) (pair : Block × Block) (r : PdfReport) : Prop :=
  r.filename = attachmentFilename pair.1 ∧
    (pdfData pair.1).bind p.b64decode = some r.pdfBytes ∧ pair.2 = textBlock (r.text p)

theorem length_attachments {blocks out : List Block} (h : out.length = blocks.length) :
    (attachments blocks out).length ≤ (blocks.filter isPdfFileBlock).length := by
  unfold attachments
  induction blocks generalizing out with
  | nil => simp
  | cons block blocks ih =>
    cases out with
    | nil => simp
    | cons first out =>
      have hrest := ih (Nat.succ.inj h)
      simp only [List.zip_cons_cons, List.filter_cons]
      split
      · rename_i hdata
        have hpdf : isPdfFileBlock block = true := by
          unfold pdfData at hdata
          split at hdata
          · assumption
          · cases hdata
        rw [if_pos hpdf]
        exact Nat.succ_le_succ hrest
      · split
        · exact Nat.le_succ_of_le hrest
        · exact hrest

/-- What the blocks of a history become -/
structure Normalized (p : PdfSettings) (blocks out : List Block) (run run' : PdfRun) : Prop where
  length : out.length = blocks.length
  reports : ∃ rs, run'.reports = run.reports ++ rs ∧
    List.Forall₂ (Replaced p) (attachments blocks out) rs
  budgeted : Budgeted p run → Budgeted p run'

theorem normalizeBlocks_spec {blocks out : List Block} {run run' : PdfRun}
    (h : normalizeBlocks p supportsImages blocks run = .ok (out, run')) :
    Normalized p blocks out run run' := by
  induction blocks generalizing run out with
  | nil =>
    cases h
    exact ⟨rfl, ⟨[], (List.append_nil _).symm, .nil⟩, id⟩
  | cons block blocks ih =>
    obtain ⟨first, mid, rest, hfirst, hrest, rfl⟩ := normalizeBlocks_cons h
    obtain ⟨hlength, ⟨rs, hrs, hreplaced⟩, hbudgeted⟩ := ih hrest
    unfold normalizeContentBlock at hfirst
    split at hfirst
    · -- a PDF attachment
      rename_i data hdata
      split at hfirst
      · cases hfirst
      · rename_i report budget hreport
        cases hfirst
        obtain ⟨hname, hdecode, _⟩ := pdfFileBlockToText_spec hreport
        refine ⟨congrArg (· + 1) hlength, ⟨report :: rs, ?_, ?_⟩, fun hb => ?_⟩
        · rw [hrs, List.append_assoc, List.singleton_append]
        · have hpairs : attachments (block :: blocks) (textBlock (report.text p) :: rest) =
              (block, textBlock (report.text p)) :: attachments blocks rest := by
            simp [attachments, hdata]
          rw [hpairs]
          refine .cons ⟨hname, ?_, rfl⟩ hreplaced
          rw [hdata]
          exact hdecode
        · exact hbudgeted (hb.report hreport)
    · -- another block
      rename_i hdata
      split at hfirst
      · cases hfirst
      · rename_i other hother
        cases hfirst
        have hpairs : attachments (block :: blocks) (first :: rest) = attachments blocks rest := by
          simp [attachments, hdata]
        refine ⟨congrArg (· + 1) hlength, ⟨rs, hrs, ?_⟩, hbudgeted⟩
        rw [hpairs]
        exact hreplaced

theorem validatePdfHistoryBlocks_ok {blocks : List Block}
    (h : validatePdfHistoryBlocks p blocks = .ok ()) :
    (blocks.filter isPdfFileBlock).length ≤ p.maxAttachments := by
  refine Classical.byContradiction fun hmany => ?_
  rw [Nat.not_le] at hmany
  simp only [validatePdfHistoryBlocks, gt_iff_lt, hmany, if_true] at h
  cases h

/-- **The budget of the PDF attachments is exact**: every attachment with data is decoded and
    replaced by a text, at most `maxAttachments` of them; the bytes and the characters the budget
    counts are those of the attachments and within their limits; and an attachment says that it is
    cut, or not parsed at all, exactly when the budget was in its way. -/
theorem pdf_budget_exact {messages out : List Message} {run : PdfRun}
    (h : normalizeMultimodalMessages p supportsImages messages = .ok (out, run)) :
    (historyBlocks out).length = (historyBlocks messages).length ∧
      List.Forall₂ (Replaced p) (attachments (historyBlocks messages) (historyBlocks out))
        run.reports ∧
      run.reports.length ≤ p.maxAttachments ∧ Budgeted p run := by
  unfold normalizeMultimodalMessages at h
  split at h
  · cases h
  · rename_i hvalid
    obtain ⟨hlength, ⟨rs, hrs, hreplaced⟩, hbudgeted⟩ :=
      normalizeBlocks_spec (normalizeEach_blocks h)
    have hreports : run.reports = rs := hrs
    rw [← hreports] at hreplaced
    refine ⟨hlength, hreplaced, ?_, hbudgeted .start⟩
    rw [← hreplaced.length_eq]
    exact Nat.le_trans (length_attachments hlength) (validatePdfHistoryBlocks_ok hvalid)

/-- Limits of a few characters and bytes, and a reader that finds the same two pages in every PDF -/
def smallSettings : PdfSettings where
  textMaxChars := 12
  maxPages := 3
  maxAttachments := 3
  maxUploadBytes := 20
  totalMaxDecodedBytes := 30
  b64decode data := if data = "JVBERi0=" then some [37, 80, 68, 70, 45] else none
  pdfReader _ := .ok [.page (.ok " a "), .page (.ok "")]

/-- A history with a PDF in each of two messages -/
def twoAttachments : List Message :=
  [.base "human" (.arr [.obj [("type", .str "file"), ("mime_type", .str "application/pdf"),
    ("data", .str "JVBERi0=")]]),
   .base "human" (.obj [("type", .str "file"), ("mimeType", .str "application/pdf"),
    ("base64", .str "JVBERi0=")])]

/-- The second attachment gets the three characters the first one has left. -/
theorem pdf_budget_exact_two : ∃ out run,
    normalizeMultimodalMessages smallSettings false twoAttachments = .ok (out, run) ∧
      run.budget = ⟨10, 12⟩ ∧ run.reports.map PdfReport.shownChars = [9, 3] ∧
      Budgeted smallSettings run := by
  refine ⟨_, _, rfl, rfl, rfl, ?_⟩
  exact (@pdf_budget_exact smallSettings false twoAttachments _ _ rfl).2.2.2

end Multimodal

end HyChat
