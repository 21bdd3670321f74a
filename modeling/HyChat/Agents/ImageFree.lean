import HyChat.Agents.PdfBudget

/-!
# Histories without images

For a model that reads no images, every image of a history becomes a notice. The frontend
normalisation writes a MIME type into the blocks it leaves, but it is the one the block had, so that
no block turns into an image or a PDF by it; what comes out is left as it is when the history is
normalised again.

The order of the argument. The predicate that decides what is an image reads several fields, under
several spellings, at two levels of nesting; the frontend normalisation writes some of the same
fields. The first half of the module therefore shows that what is written is what would have been
read (`firstOf_withSource`), so that normalising does not change what a block is. After that the
cases are few: a block is left as it is, becomes a text block, or becomes the text of a PDF; none
of these is an image, and each is left alone the second time (`Left`).

Normalising twice changes nothing because the text blocks it puts in are of a type it leaves, and
because for a model that reads no images every image has become one of them. The theorem is for
such a model; of one that reads images nothing is claimed here.
-/

set_option autoImplicit false

namespace HyChat

open Lib Chat

namespace Multimodal

variable {p : PdfSettings}

/-! ## Fields that are written

A dictionary is a list of keys and values in the order of insertion; writing a key that is there
keeps its place. -/

theorem setItem_of_lookup {key : String} {value : Json} {block : Block}
    (h : block.lookup key = some value) : setItem key value block = block := by
  induction block with
  | nil => cases h
  | cons q rest ih =>
    obtain ⟨k, v⟩ := q
    unfold setItem
    split
    · rename_i hk
      rw [hk, List.lookup_cons_self] at h
      cases h
      rfl
    · rename_i hk
      rw [List.lookup_cons, beq_eq_false_iff_ne.mpr (Ne.symm hk)] at h
      rw [ih h]

theorem withContent_content (message : Message) (content : Json) :
    (message.withContent content).withContent (message.withContent content).content =
      message.withContent content := by
  rw [Message.content_withContent]
  cases message with
  | mapping fields =>
    simp only [Message.withContent]
    rw [setItem_of_lookup (lookup_setItem_self _ _ _)]
  | base type content => rfl

/-- Writing a field loses no other. -/
theorem setItem_keeps_keys (key : String) (value : Json) (block : Block) :
    block.map Prod.fst <+: (setItem key value block).map Prod.fst := by
  rw [keys_setItem]
  split
  · exact List.prefix_refl _
  · exact List.prefix_append _ _

/-- Fields the normalisation never writes -/
def Untouched (key : String) : Prop := key ≠ "source_type" ∧ key ≠ "mime_type" ∧ key ≠ "filename"

theorem lookup_withSource {block : Block} {mimeType key : String} (h : Untouched key) :
    (withSource block mimeType).lookup key = block.lookup key := by
  obtain ⟨hsource, hmime, hname⟩ := h
  have hsourced : (setItem "mime_type" (.str mimeType)
      (setItem "source_type" (.str "base64") block)).lookup key = block.lookup key := by
    rw [lookup_setItem_of_ne hmime, lookup_setItem_of_ne hsource]
  unfold withSource
  simp only
  split
  · split
    · rw [lookup_setItem_of_ne hname, hsourced]
    · exact hsourced
  · exact hsourced

theorem get_withSource {block : Block} {mimeType key : String} (h : Untouched key) :
    (withSource block mimeType).get key = block.get key := by
  unfold Block.get
  rw [lookup_withSource h]

theorem lookup_mimeType_withSource (block : Block) (mimeType : String) :
    (withSource block mimeType).lookup "mime_type" = some (.str mimeType) := by
  have hsourced : (setItem "mime_type" (.str mimeType)
      (setItem "source_type" (.str "base64") block)).lookup "mime_type" = some (.str mimeType) :=
    lookup_setItem_self _ _ _
  unfold withSource
  simp only
  split
  · split
    · rw [lookup_setItem_of_ne (by decide), hsourced]
    · exact hsourced
  · exact hsourced

/-- A block that has been given a source says so. -/
theorem has_sourceType_withSource (block : Block) (mimeType : String) :
    (withSource block mimeType).has "source_type" = true := by
  have hsourced : (setItem "mime_type" (.str mimeType)
      (setItem "source_type" (.str "base64") block)).lookup "source_type" =
        some (.str "base64") := by
    rw [lookup_setItem_of_ne (by decide), lookup_setItem_self]
  unfold Block.has withSource
  simp only
  split
  · split
    · rw [lookup_setItem_of_ne (by decide), hsourced]
      rfl
    · rw [hsourced]
      rfl
  · rw [hsourced]
    rfl

theorem keys_withSource (block : Block) (mimeType : String) :
    block.map Prod.fst <+: (withSource block mimeType).map Prod.fst := by
  have hsourced : block.map Prod.fst <+: (setItem "mime_type" (.str mimeType)
      (setItem "source_type" (.str "base64") block)).map Prod.fst :=
    (setItem_keeps_keys _ _ _).trans (setItem_keeps_keys _ _ _)
  unfold withSource
  simp only
  split
  · split
    · exact hsourced.trans (setItem_keeps_keys _ _ _)
    · exact hsourced
  · exact hsourced

/-! ## The MIME type that is written -/

theorem firstOf_congr {block other : Block} {keys : List String}
    (h : ∀ key ∈ keys, other.get key = block.get key) : other.firstOf keys = block.firstOf keys := by
  induction keys with
  | nil => rfl
  | cons key keys ih =>
    have hkey := h key List.mem_cons_self
    have hkeys := ih fun k hk => h k (List.mem_cons_of_mem _ hk)
    cases keys with
    | nil => exact hkey
    | cons next keys =>
      unfold Block.firstOf
      rw [hkey, hkeys]

theorem firstOf_cons (block : Block) (key next : String) (keys : List String) :
    block.firstOf (key :: next :: keys) =
      if truthy (block.get key) then block.get key else block.firstOf (next :: keys) := rfl

/-- **The MIME type that is written is the one the block had**, also among further spellings. -/
theorem firstOf_withSource {block : Block} {mimeType : String}
    (h : block.firstOf ["mime_type", "mimeType"] = .str mimeType) (keys : List String)
    (hkeys : ∀ key ∈ keys, Untouched key) :
    (withSource block mimeType).firstOf ("mime_type" :: "mimeType" :: keys) =
      block.firstOf ("mime_type" :: "mimeType" :: keys) := by
  have hmime : (withSource block mimeType).get "mime_type" = .str mimeType := by
    unfold Block.get
    rw [lookup_mimeType_withSource]
    rfl
  have hrest : (withSource block mimeType).firstOf ("mimeType" :: keys) =
      block.firstOf ("mimeType" :: keys) := by
    apply firstOf_congr
    intro key hkey
    apply get_withSource
    rcases List.mem_cons.mp hkey with rfl | hkey
    · exact ⟨by decide, by decide, by decide⟩
    · exact hkeys key hkey
  have hfirst : block.firstOf ["mime_type", "mimeType"] =
      if truthy (block.get "mime_type") then block.get "mime_type" else block.get "mimeType" := rfl
  rw [h] at hfirst
  rw [firstOf_cons, firstOf_cons, hmime, hrest]
  by_cases hown : truthy (block.get "mime_type") = true
  · -- the block has the type under this spelling
    rw [if_pos hown] at hfirst
    rw [← hfirst]
  · rw [if_neg hown] at hfirst ⊢
    by_cases hfull : truthy (.str mimeType) = true
    · -- the type comes from the second spelling
      rw [if_pos hfull]
      cases keys with
      | nil => exact hfirst
      | cons key keys => rw [firstOf_cons, ← hfirst, if_pos hfull]
    · rw [if_neg hfull]

theorem get_type_withSource (block : Block) (mimeType : String) :
    (withSource block mimeType).get "type" = block.get "type" :=
  get_withSource ⟨by decide, by decide, by decide⟩

theorem isPdfFileBlock_withSource {block : Block} {mimeType : String}
    (h : block.firstOf ["mime_type", "mimeType"] = .str mimeType) :
    isPdfFileBlock (withSource block mimeType) = isPdfFileBlock block := by
  unfold isPdfFileBlock
  rw [get_type_withSource, firstOf_withSource h [] (by simp)]

theorem pdfData_withSource {block : Block} {mimeType : String}
    (h : block.firstOf ["mime_type", "mimeType"] = .str mimeType) :
    pdfData (withSource block mimeType) = pdfData block := by
  have hdata : (withSource block mimeType).firstOf ["data", "base64"] =
      block.firstOf ["data", "base64"] := by
    apply firstOf_congr
    intro key hkey
    apply get_withSource
    simp only [List.mem_cons, List.not_mem_nil, or_false] at hkey
    rcases hkey with rfl | rfl <;> exact ⟨by decide, by decide, by decide⟩
  unfold pdfData
  rw [isPdfFileBlock_withSource h, hdata]

/-- The type that is read from the block before and after is the same. -/
theorem mimeTypeOf_withSource {block : Block} {mimeType : String}
    (h : block.firstOf ["mime_type", "mimeType"] = .str mimeType) :
    mimeTypeOf (withSource block mimeType) = mimeTypeOf block := by
  have hfirst := firstOf_withSource h ["media_type", "mediaType", "content_type", "contentType"] (by
    intro key hkey
    simp only [List.mem_cons, List.not_mem_nil, or_false] at hkey
    rcases hkey with rfl | rfl | rfl | rfl <;> exact ⟨by decide, by decide, by decide⟩)
  have hsource : (withSource block mimeType).get "source" = block.get "source" :=
    get_withSource ⟨by decide, by decide, by decide⟩
  unfold mimeTypeOf
  simp only [hfirst, hsource]

/-- Writing a source makes no image. -/
theorem isImageContentBlock_withSource {block : Block} {mimeType : String}
    (h : block.firstOf ["mime_type", "mimeType"] = .str mimeType) :
    isImageContentBlock (withSource block mimeType) = isImageContentBlock block := by
  have hfile : (withSource block mimeType).get "file" = block.get "file" :=
    get_withSource ⟨by decide, by decide, by decide⟩
  have hurl : (withSource block mimeType).get "url" = block.get "url" :=
    get_withSource ⟨by decide, by decide, by decide⟩
  unfold isImageContentBlock nestedImage typeIn
  simp only [get_type_withSource, hfile, hurl, mimeTypeOf_withSource h]

/-! ## Normalising a block -/

/-- A block that is left as it is -/
structure Left (block : Block) : Prop where
  noData : pdfData block = none
  noImage : isImageContentBlock block = .ok false
  normal : normalizeFrontendMultimodalBlock block = .ok block

/-- A text block is left as it is. -/
theorem left_textBlock (text : String) : Left (textBlock text) := by
  refine ⟨rfl, rfl, rfl⟩

/-- The frontend normalisation leaves a block, or writes its MIME type. -/
theorem normalizeFrontend_cases {block out : Block}
    (h : normalizeFrontendMultimodalBlock block = .ok out) :
    out = block ∨ ∃ mimeType, block.firstOf ["mime_type", "mimeType"] = .str mimeType ∧
      out = withSource block mimeType := by
  unfold normalizeFrontendMultimodalBlock at h
  cases hknown : typeIn block ["image", "file"] with
  | error e =>
    rw [hknown] at h
    cases h
  | ok known =>
    rw [hknown] at h
    simp only [bind, Except.bind] at h
    split at h
    · split at h
      · rename_i mimeType data hmime hdata
        cases h
        exact .inr ⟨mimeType, hmime, rfl⟩
      · cases h
        exact .inl rfl
    · cases h
      exact .inl rfl

/-- A block that has its source already is not given another. -/
theorem normalizeFrontend_withSource {block out : Block} {mimeType : String}
    (h : normalizeFrontendMultimodalBlock block = .ok out) :
    normalizeFrontendMultimodalBlock (withSource block mimeType) =
      .ok (withSource block mimeType) := by
  unfold normalizeFrontendMultimodalBlock at h ⊢
  have hknown : typeIn (withSource block mimeType) ["image", "file"] =
      typeIn block ["image", "file"] := by
    unfold typeIn
    rw [get_type_withSource]
  rw [hknown]
  cases hin : typeIn block ["image", "file"] with
  | error e =>
    rw [hin] at h
    cases h
  | ok known => simp [bind, Except.bind, pure, Except.pure, has_sourceType_withSource]

/-- What comes out of the frontend normalisation keeps every field and is left as it is. -/
theorem normalizeFrontend_spec {block out : Block}
    (h : normalizeFrontendMultimodalBlock block = .ok out) :
    block.map Prod.fst <+: out.map Prod.fst ∧ isPdfFileBlock out = isPdfFileBlock block ∧
      (pdfData block = none → isImageContentBlock block = .ok false → Left out) := by
  rcases normalizeFrontend_cases h with rfl | ⟨mimeType, hmime, rfl⟩
  · exact ⟨List.prefix_refl _, rfl, fun hdata himage => ⟨hdata, himage, h⟩⟩
  · refine ⟨keys_withSource _ _, isPdfFileBlock_withSource hmime, fun hdata himage => ⟨?_, ?_, ?_⟩⟩
    · rw [pdfData_withSource hmime, hdata]
    · rw [isImageContentBlock_withSource hmime, himage]
    · exact normalizeFrontend_withSource h

/-- What a block becomes when it is neither an image nor a PDF with data -/
def Kept (block out : Block) : Prop :=
  pdfData block = none → isImageContentBlock block = .ok false →
    normalizeFrontendMultimodalBlock block = .ok out ∧
      block.map Prod.fst <+: out.map Prod.fst

/-- **One block**: what comes out is no image and is left as it is from then on. -/
theorem normalizeContentBlock_left {block out : Block} {run run' : PdfRun}
    (h : normalizeContentBlock p false block run = .ok (out, run')) :
    Kept block out ∧ Left out ∧ (isPdfFileBlock out = true → isPdfFileBlock block = true) := by
  unfold normalizeContentBlock at h
  split at h
  · -- a PDF with data
    rename_i data hdata
    split at h
    · cases h
    · cases h
      refine ⟨fun hnone => ?_, left_textBlock _, fun hpdf => by cases hpdf⟩
      rw [hdata] at hnone
      cases hnone
  · rename_i hdata
    split at h
    · cases h
    · rename_i other hother
      cases h
      unfold normalizeOtherBlock at hother
      simp only [Bool.false_eq_true, if_false] at hother
      cases himage : isImageContentBlock block with
      | error e =>
        rw [himage] at hother
        cases hother
      | ok image =>
        rw [himage] at hother
        cases image with
        | true =>
          -- an image
          cases hother
          refine ⟨fun _ hfalse => ?_, left_textBlock _, fun hpdf => by cases hpdf⟩
          rw [himage] at hfalse
          cases hfalse
        | false =>
          obtain ⟨hkeys, hpdf, hleft⟩ := normalizeFrontend_spec hother
          refine ⟨fun _ _ => ⟨hother, hkeys⟩, hleft hdata himage, fun h => ?_⟩
          rw [← hpdf]
          exact h

theorem Left.normalizeContentBlock {block : Block} (h : Left block) (run : PdfRun) :
    normalizeContentBlock p false block run = .ok (block, run) := by
  have hother : normalizeOtherBlock false block = .ok block := by
    unfold normalizeOtherBlock
    simp only [Bool.false_eq_true, if_false, h.noImage, bind, Except.bind]
    exact h.normal
  unfold Multimodal.normalizeContentBlock
  simp only [h.noData, hother]

/-! ## Normalising a history -/

/-- An item of a list and what it becomes: what is no dictionary stays. -/
inductive ItemKept : Json → Json → Prop
  | block {block out : Block} (h : Kept block out) : ItemKept (.obj block) (.obj out)
  | other {item : Json} (h : ∀ block, item ≠ .obj block) : ItemKept item item

/-- A content and what it becomes: a string stays, and a list keeps its items in order. -/
inductive ContentKept : Json → Json → Prop
  | block {block out : Block} (h : Kept block out) : ContentKept (.obj block) (.obj out)
  | list {items out : List Json} (h : List.Forall₂ ItemKept items out) :
      ContentKept (.arr items) (.arr out)
  | other {content : Json} (hblock : ∀ block, content ≠ .obj block)
      (hlist : ∀ items, content ≠ .arr items) : ContentKept content content

/-- A message and what it becomes: only its content changes. -/
def MessageKept (message out : Message) : Prop :=
  out = message.withContent out.content ∧ ContentKept message.content out.content

theorem MessageKept.withContent_content {message out : Message} (h : MessageKept message out) :
    out.withContent out.content = out := by
  obtain ⟨hout, _⟩ := h
  rw [hout]
  exact Multimodal.withContent_content _ _

theorem normalizeItems_kept {items out : List Json} {run run' : PdfRun}
    (h : normalizeItems p false items run = .ok (out, run')) : List.Forall₂ ItemKept items out := by
  induction items generalizing run out with
  | nil =>
    cases h
    exact .nil
  | cons item items ih =>
    obtain ⟨first, mid, rest, hfirst, hrest, rfl⟩ := normalizeItems_cons h
    refine .cons ?_ (ih hrest)
    cases hfirst with
    | block hblock => exact .block (normalizeContentBlock_left hblock).1
    | other hitem => exact .other hitem

theorem normalizeMultimodalContent_kept {content out : Json} {run run' : PdfRun}
    (h : normalizeMultimodalContent p false content run = .ok (out, run')) :
    ContentKept content out := by
  unfold normalizeMultimodalContent at h
  split at h
  · split at h
    · cases h
    · rename_i first mid hfirst
      cases h
      exact .block (normalizeContentBlock_left hfirst).1
  · split at h
    · cases h
    · rename_i rest last hrest
      cases h
      exact .list (normalizeItems_kept hrest)
  · rename_i hobj harr
    cases h
    exact .other hobj harr

/-- The loop over the messages keeps their number and order. -/
theorem normalizeEach_kept {messages out : List Message} {run run' : PdfRun}
    (h : normalizeEach p false messages run = .ok (out, run')) :
    List.Forall₂ MessageKept messages out := by
  induction messages generalizing run out with
  | nil =>
    cases h
    exact .nil
  | cons message messages ih =>
    unfold normalizeEach at h
    split at h
    · cases h
    · rename_i content mid hcontent
      split at h
      · cases h
      · rename_i rest last hrest
        cases h
        refine .cons ⟨?_, ?_⟩ (ih hrest)
        · rw [Message.content_withContent]
        · rw [Message.content_withContent]
          exact normalizeMultimodalContent_kept hcontent

theorem normalizeBlocks_left {blocks out : List Block} {run run' : PdfRun}
    (h : normalizeBlocks p false blocks run = .ok (out, run')) :
    (∀ block ∈ out, Left block) ∧
      (out.filter isPdfFileBlock).length ≤ (blocks.filter isPdfFileBlock).length := by
  induction blocks generalizing run out with
  | nil =>
    cases h
    exact ⟨by simp, Nat.le_refl _⟩
  | cons block blocks ih =>
    obtain ⟨first, mid, rest, hfirst, hrest, rfl⟩ := normalizeBlocks_cons h
    obtain ⟨_, hleft, hpdf⟩ := normalizeContentBlock_left hfirst
    obtain ⟨hall, hcount⟩ := ih hrest
    refine ⟨List.forall_mem_cons.mpr ⟨hleft, hall⟩, ?_⟩
    simp only [List.filter_cons]
    by_cases hfile : isPdfFileBlock first = true
    · rw [if_pos hfile, if_pos (hpdf hfile)]
      exact Nat.succ_le_succ hcount
    · rw [if_neg hfile]
      split
      · exact Nat.le_succ_of_le hcount
      · exact hcount

/-! ## Normalising it again -/

theorem normalizeItems_of_left {items : List Json} {run : PdfRun}
    (h : ∀ block ∈ contentBlocks (.arr items), Left block) :
    normalizeItems p false items run = .ok (items, run) := by
  induction items with
  | nil => rfl
  | cons item items ih =>
    cases item with
    | obj block =>
      have hall : ∀ b ∈ block :: contentBlocks (.arr items), Left b := h
      obtain ⟨hblock, hrest⟩ := List.forall_mem_cons.mp hall
      simp only [normalizeItems, hblock.normalizeContentBlock, ih hrest]
    | _ => simp only [normalizeItems, ih h]

theorem normalizeMultimodalContent_of_left {content : Json} {run : PdfRun}
    (h : ∀ block ∈ contentBlocks content, Left block) :
    normalizeMultimodalContent p false content run = .ok (content, run) := by
  cases content with
  | obj block =>
    have hblock : Left block := h block List.mem_cons_self
    simp only [normalizeMultimodalContent, hblock.normalizeContentBlock]
  | arr items => simp only [normalizeMultimodalContent, normalizeItems_of_left h]
  | _ => rfl

/-- A history that is left block by block is left as a whole. -/
theorem normalizeEach_of_left {messages : List Message} {run : PdfRun}
    (hsame : ∀ message ∈ messages, message.withContent message.content = message)
    (h : ∀ block ∈ historyBlocks messages, Left block) :
    normalizeEach p false messages run = .ok (messages, run) := by
  induction messages with
  | nil => rfl
  | cons message messages ih =>
    obtain ⟨hfirst, hothers⟩ := List.forall_mem_cons.mp hsame
    have hcontent : normalizeMultimodalContent p false message.content run =
        .ok (message.content, run) := normalizeMultimodalContent_of_left fun block hblock =>
      h block (List.mem_flatMap.mpr ⟨message, List.mem_cons_self, hblock⟩)
    have hrest := ih hothers fun block hblock => h block (List.mem_append_right _ hblock)
    simp only [normalizeEach, hcontent, hrest, hfirst]

theorem estimatePdfBlocks_of_left {blocks : List Block} (total : Nat)
    (hpdf : ∀ block ∈ blocks, isPdfFileBlock block = true) (h : ∀ block ∈ blocks, Left block) :
    estimatePdfBlocks p total blocks = .ok total := by
  induction blocks with
  | nil => rfl
  | cons block blocks ih =>
    obtain ⟨hblock, hblocks⟩ := List.forall_mem_cons.mp h
    obtain ⟨hfile, hfiles⟩ := List.forall_mem_cons.mp hpdf
    have hdata := hblock.noData
    unfold pdfData at hdata
    rw [hfile] at hdata
    unfold estimatePdfBlocks
    split
    · rename_i data hstr
      rw [hstr] at hdata
      cases hdata
    · exact ih hfiles hblocks

theorem validatePdfHistoryBlocks_of_left {blocks : List Block}
    (hcount : (blocks.filter isPdfFileBlock).length ≤ p.maxAttachments)
    (h : ∀ block ∈ blocks, Left block) : validatePdfHistoryBlocks p blocks = .ok () := by
  have htotal := estimatePdfBlocks_of_left (p := p) 0
    (fun block hblock => (List.mem_filter.mp hblock).2)
    (fun block hblock => h block (List.mem_filter.mp hblock).1)
  unfold validatePdfHistoryBlocks
  simp only [gt_iff_lt, Nat.not_lt.mpr hcount, if_false, htotal, bind, Except.bind, pure,
    Except.pure, Nat.not_lt_zero]

theorem withContent_content_of_kept {messages out : List Message}
    (h : List.Forall₂ MessageKept messages out) :
    ∀ message ∈ out, message.withContent message.content = message := by
  induction h with
  | nil => simp
  | cons hfirst _ ih => exact List.forall_mem_cons.mpr ⟨hfirst.withContent_content, ih⟩

/-- **A history for a text model has no images left**: messages and items keep their number and
    order, a block that is neither an image nor a PDF with data is the frontend normalisation of
    what it was and keeps its fields, a string content stays, no block is an image, and normalising
    the history again changes nothing. -/
theorem image_free_history {messages out : List Message} {run : PdfRun}
    (h : normalizeMultimodalMessages p false messages = .ok (out, run)) :
    List.Forall₂ MessageKept messages out ∧
      (∀ block ∈ historyBlocks out, isImageContentBlock block = .ok false) ∧
      normalizeMultimodalMessages p false out = .ok (out, .start) := by
  unfold normalizeMultimodalMessages at h
  split at h
  · cases h
  · rename_i hvalid
    have hkept := normalizeEach_kept h
    obtain ⟨hleft, hcount⟩ := normalizeBlocks_left (normalizeEach_blocks h)
    refine ⟨hkept, fun block hblock => (hleft block hblock).noImage, ?_⟩
    unfold normalizeMultimodalMessages
    rw [validatePdfHistoryBlocks_of_left
      (Nat.le_trans hcount (validatePdfHistoryBlocks_ok hvalid)) hleft]
    exact normalizeEach_of_left (withContent_content_of_kept hkept) hleft

/-- A question about a picture, with the answer to it -/
def pictureHistory : List Message :=
  [.mapping [("type", .str "human"), ("content", .arr [.str "看图",
      .obj [("type", .str "image"), ("mimeType", .str "image/png"), ("data", .str "aGk=")],
      .obj [("type", .str "file"), ("mimeType", .str "text/plain"), ("data", .str "aGk=")]])],
   .base "ai" (.str "好的")]

/-- The picture becomes a notice, and the file gets the fields of its source. -/
theorem image_free_history_picture : ∃ out run,
    normalizeMultimodalMessages smallSettings false pictureHistory = .ok (out, run) ∧
      (historyBlocks out).map (·.map Prod.fst) =
        [["type", "text"], ["type", "mimeType", "data", "source_type", "mime_type"]] ∧
      normalizeMultimodalMessages smallSettings false out = .ok (out, .start) :=
  ⟨_, _, rfl, rfl, (@image_free_history smallSettings pictureHistory _ _ rfl).2.2⟩

end Multimodal

end HyChat
