import HyChat.Agents.PdfBudget
import HyChat.Lib.Base64

/-!
# The size of a PDF attachment before and after decoding

`_validate_pdf_history_blocks` weighs the attachments of a history by the length of their Base64,
`_pdf_file_block_to_text` by the bytes that come out. The estimate is never too small, so that what
has passed the first check never fails the second one. It is too large for padding behind a group of
four letters that is complete already: the decoder reads over such padding, the estimate counts it.

The estimate is arithmetic on the length of the text and the padding at its end; the decoder's
result is a fact about its groups of four letters. Between them stands the data without padding:
the number of bytes is a function of the number of letters that are not `=`, for every text the
decoder accepts with `validate=True`. The two sizes then differ by the groups that the padding
fills up, which for the padding an encoder writes is nothing.

Why the comparison is one of whole histories. The first check adds estimates up and stops the
request when the sum or the number of attachments is too large; the second adds up what it decodes,
one attachment after the other, and raises when that is too much. The theorem says that the second
never raises for size after the first has passed, and that the first refuses nothing the second
would have taken when no attachment has surplus padding. `ReachesPdfs` is for the second half only:
a block whose type cannot be hashed stops the processing before it comes to a later attachment, and
then there is nothing to compare with.
-/

set_option autoImplicit false

namespace HyChat

open Lib Base64

namespace Multimodal

/-! ## The estimate -/

/-- The data ends in padding although its last group of four letters is complete. -/
def SurplusPadding (data : String) : Prop :=
  '=' ∈ data.toList ∧ (data.toList.filter (· ≠ '=')).length % 4 = 0

instance (data : String) : Decidable (SurplusPadding data) := inferInstanceAs (Decidable (_ ∧ _))

/-- The trailing padding of letters and padding -/
theorem takeWhile_padding {letters : List Char} {padding : Nat} (h : '=' ∉ letters) :
    ((letters ++ List.replicate padding '=').reverse.takeWhile (· == '=')).length = padding := by
  have hletters : letters.reverse.takeWhile (· == '=') = [] := by
    cases hr : letters.reverse with
    | nil => rfl
    | cons c rest =>
      have hc : c ∈ letters := List.mem_reverse.mp (hr ▸ List.mem_cons_self)
      rw [List.takeWhile_cons_of_neg]
      intro he
      exact h (beq_iff_eq.mp he ▸ hc)
  rw [List.reverse_append, List.reverse_replicate,
    List.takeWhile_append_of_pos (fun c hc => beq_iff_eq.mpr (List.eq_of_mem_replicate hc)),
    hletters, List.append_nil, List.length_replicate]

theorem base64DecodedSize_padded {data : String} {letters : List Char} {padding : Nat}
    (hdata : data.toList = letters ++ List.replicate padding '=') (h : '=' ∉ letters) :
    base64DecodedSize data =
      if (letters.length + padding) % 4 ≠ 0 then ((letters.length + padding) / 4 + 1) * 3
      else (letters.length + padding) / 4 * 3 - min padding 2 := by
  have hlength : data.length = letters.length + padding := by
    rw [← String.length_toList, hdata, List.length_append, List.length_replicate]
  simp only [base64DecodedSize, hdata, takeWhile_padding h, hlength]

theorem surplusPadding_padded {data : String} {letters : List Char} {padding : Nat}
    (hdata : data.toList = letters ++ List.replicate padding '=') (h : '=' ∉ letters) :
    SurplusPadding data ↔ 0 < padding ∧ letters.length % 4 = 0 := by
  have hfilter : data.toList.filter (· ≠ '=') = letters := by
    rw [hdata, List.filter_append, List.filter_eq_self.mpr fun c hc => ?_,
      List.filter_eq_nil_iff.mpr fun c hc => ?_, List.append_nil]
    · simp [List.eq_of_mem_replicate hc]
    · simpa using fun he : c = '=' => h (he ▸ hc)
  unfold SurplusPadding
  rw [hfilter, hdata]
  simp [h, Nat.pos_iff_ne_zero]

/-- **The estimate** is never below the size of the bytes, and it is exact unless there is padding
    behind a complete group. -/
theorem base64DecodedSize_of_decodes {data : String} {bytes : List UInt8}
    (h : b64decode data = some bytes) :
    bytes.length ≤ base64DecodedSize data ∧
      (base64DecodedSize data = bytes.length ↔ ¬ SurplusPadding data) := by
  obtain ⟨letters, padding, hdata, hmem, hshape⟩ := b64decode_shape h
  rw [surplusPadding_padded hdata hmem, base64DecodedSize_padded hdata hmem, hshape.bytes]
  have hgroup := hshape.group
  have hplace : letters.length % 4 = 0 ∨ letters.length % 4 = 2 ∨ letters.length % 4 = 3 := by omega
  rcases hplace with hp | hp | hp
  · -- complete groups: any padding is surplus
    split <;> omega
  · have hpadding : padding = 2 := by
      have := hshape.padding
      omega
    subst hpadding
    split <;> omega
  · have hpadding : padding = 1 := by
      have := hshape.padding
      omega
    subst hpadding
    split <;> omega

/-! ## The check of a history -/

/-- What the check adds for a block -/
def estimatedSize (block : Block) : Nat :=
  match pdfData block with
  | some data => base64DecodedSize data
  | none => 0

def estimatedTotal (blocks : List Block) : Nat := (blocks.map estimatedSize).sum

variable {p : PdfSettings} {supportsImages : Bool}

theorem estimatedSize_of_not {block : Block} (h : isPdfFileBlock block = false) :
    estimatedSize block = 0 := by
  simp only [estimatedSize, pdfData, h]

theorem estimatedTotal_filter (blocks : List Block) :
    estimatedTotal (blocks.filter isPdfFileBlock) = estimatedTotal blocks := by
  induction blocks with
  | nil => rfl
  | cons block blocks ih =>
    cases hpdf : isPdfFileBlock block with
    | true =>
      rw [List.filter_cons_of_pos hpdf]
      exact congrArg (estimatedSize block + ·) ih
    | false =>
      rw [List.filter_cons_of_neg (by simp [hpdf]), ih]
      simp [estimatedTotal, estimatedSize_of_not hpdf]

/-- The loop answers the sum of the estimates unless one of them is over the limit. -/
theorem estimatePdfBlocks_eq {blocks : List Block} (hpdf : ∀ block ∈ blocks, isPdfFileBlock block)
    (total : Nat) :
    (∀ sum, estimatePdfBlocks p total blocks = .ok sum → sum = total + estimatedTotal blocks) ∧
      ((∀ block ∈ blocks, estimatedSize block ≤ p.byteLimit) →
        estimatePdfBlocks p total blocks = .ok (total + estimatedTotal blocks)) := by
  induction blocks generalizing total with
  | nil => exact ⟨fun sum h => by cases h; rfl, fun _ => rfl⟩
  | cons block blocks ih =>
    have hblock := hpdf block List.mem_cons_self
    have ih := ih fun b hb => hpdf b (List.mem_cons_of_mem _ hb)
    simp only [estimatePdfBlocks]
    split
    · rename_i data hdata
      have hsize : estimatedSize block = base64DecodedSize data := by
        simp only [estimatedSize, pdfData, hblock, hdata]
      have htotal : total + estimatedTotal (block :: blocks) =
          total + base64DecodedSize data + estimatedTotal blocks := by
        simp only [estimatedTotal, List.map_cons, List.sum_cons, hsize]
        omega
      rw [htotal]
      refine ⟨fun sum h => ?_, fun hle => ?_⟩
      · split at h
        · cases h
        · exact (ih _).1 sum h
      · rw [if_neg (Nat.not_lt.mpr (hsize ▸ hle block List.mem_cons_self))]
        exact (ih _).2 fun b hb => hle b (List.mem_cons_of_mem _ hb)
    · rename_i hdata
      have hsize : estimatedSize block = 0 := by
        unfold estimatedSize pdfData
        split
        · rename_i data hsome
          split at hsome
          · rename_i d _ hd
            exact absurd hd (hdata d)
          · cases hsome
        · rfl
      have htotal : total + estimatedTotal (block :: blocks) = total + estimatedTotal blocks := by
        simp [estimatedTotal, hsize]
      rw [htotal]
      exact ⟨(ih _).1, fun hle => (ih _).2 fun b hb => hle b (List.mem_cons_of_mem _ hb)⟩

/-- **The check** accepts a history whose attachments are few enough when their estimates together
    are within the limit. -/
theorem validatePdfHistoryBlocks_iff {blocks : List Block}
    (hcount : (blocks.filter isPdfFileBlock).length ≤ p.maxAttachments) :
    validatePdfHistoryBlocks p blocks = .ok () ↔ estimatedTotal blocks ≤ p.byteLimit := by
  have hpdf : ∀ block ∈ blocks.filter isPdfFileBlock, isPdfFileBlock block :=
    fun block hb => (List.mem_filter.mp hb).2
  have heq := estimatePdfBlocks_eq (p := p) hpdf 0
  rw [Nat.zero_add, estimatedTotal_filter] at heq
  have hvalidate : validatePdfHistoryBlocks p blocks =
      match estimatePdfBlocks p 0 (blocks.filter isPdfFileBlock) with
      | .error e => .error e
      | .ok total =>
          if total > p.byteLimit then
            .error s!"整段消息历史中的 PDF 附件解码后总大小超过 {uploadLimitLabel p.byteLimit}限制"
          else .ok () := by
    simp only [validatePdfHistoryBlocks, if_neg (Nat.not_lt.mpr hcount)]
    cases estimatePdfBlocks p 0 (blocks.filter isPdfFileBlock) with
    | error e => rfl
    | ok total => rfl
  rw [hvalidate]
  constructor
  · intro h
    split at h
    · cases h
    · rename_i total htotal
      rw [heq.1 total htotal] at h
      split at h
      · cases h
      · rename_i hle
        exact Nat.not_lt.mp hle
  · intro hle
    rw [heq.2 ?_]
    · simp only
      rw [if_neg (Nat.not_lt.mpr hle)]
    · intro block hb
      refine Nat.le_trans (List.single_le_sum (fun _ _ => Nat.zero_le _) _ ?_) hle
      exact List.mem_map_of_mem (List.mem_of_mem_filter hb)

/-! ## The attachments are processed -/

/-- The bytes of a block's attachment -/
def decodedSize (p : PdfSettings) (block : Block) : Nat :=
  match pdfData block with
  | some data => ((p.b64decode data).map List.length).getD 0
  | none => 0

def decodedTotal (p : PdfSettings) (blocks : List Block) : Nat := (blocks.map (decodedSize p)).sum

/-- On the way through the blocks an attachment is reached that is over the limit, by itself or with
    those before it. -/
def ByteLimitRaised (p : PdfSettings) (supportsImages : Bool) (blocks : List Block) (run : PdfRun) :
    Prop :=
  ∃ before block after out mid data bytes, blocks = before ++ block :: after ∧
    normalizeBlocks p supportsImages before run = .ok (out, mid) ∧ pdfData block = some data ∧
    p.b64decode data = some bytes ∧
    (bytes.length > p.byteLimit ∨ mid.budget.decodedBytes + bytes.length > p.byteLimit)

/-- The two texts of a byte-limit error -/
def fileLimitText (p : PdfSettings) (block : Block) : String :=
  s!"PDF 附件 {attachmentFilename block} 超过 {uploadLimitLabel p.byteLimit}限制"

def totalLimitText (p : PdfSettings) : String :=
  s!"整段消息历史中的 PDF 附件解码后总大小超过 {uploadLimitLabel p.byteLimit}限制"

theorem pdfFileBlockToText_limit {block : Block} {data : String} {bytes : List UInt8}
    {budget : PdfBudget} (hdecode : p.b64decode data = some bytes)
    (h : bytes.length > p.byteLimit ∨ budget.decodedBytes + bytes.length > p.byteLimit) :
    pdfFileBlockToText p block data budget = .error (fileLimitText p block) ∨
      pdfFileBlockToText p block data budget = .error (totalLimitText p) := by
  unfold pdfFileBlockToText fileLimitText totalLimitText
  rw [hdecode]
  by_cases hfile : bytes.length > p.byteLimit
  · exact .inl (if_pos hfile)
  · exact .inr ((if_neg hfile).trans (if_pos (h.resolve_left hfile)))

/-- What is left of a result when the blocks are forgotten -/
def ends {α : Type} (result : Except String (α × PdfRun)) : Except String PdfRun := result.map (·.2)

theorem ends_normalizeBlocks_cons (block : Block) (blocks : List Block) (run : PdfRun) :
    ends (normalizeBlocks p supportsImages (block :: blocks) run) =
      (ends (normalizeContentBlock p supportsImages block run)).bind fun mid =>
        ends (normalizeBlocks p supportsImages blocks mid) := by
  rw [normalizeBlocks]
  cases normalizeContentBlock p supportsImages block run with
  | error e => rfl
  | ok first =>
    show _ = ends (normalizeBlocks p supportsImages blocks first.2)
    dsimp only
    cases normalizeBlocks p supportsImages blocks first.2 <;> rfl

theorem ends_normalizeBlocks_append (blocks more : List Block) (run : PdfRun) :
    ends (normalizeBlocks p supportsImages (blocks ++ more) run) =
      (ends (normalizeBlocks p supportsImages blocks run)).bind fun mid =>
        ends (normalizeBlocks p supportsImages more mid) := by
  induction blocks generalizing run with
  | nil => rfl
  | cons block blocks ih =>
    rw [List.cons_append, ends_normalizeBlocks_cons, ends_normalizeBlocks_cons]
    cases ends (normalizeContentBlock p supportsImages block run) with
    | error e => rfl
    | ok mid => exact ih mid

theorem ends_normalizeItems (items : List Json) (run : PdfRun) :
    ends (normalizeItems p supportsImages items run) =
      ends (normalizeBlocks p supportsImages (contentBlocks (.arr items)) run) := by
  induction items generalizing run with
  | nil => rfl
  | cons item items ih =>
    cases item with
    | obj block =>
      show _ = ends (normalizeBlocks p supportsImages (block :: contentBlocks (.arr items)) run)
      rw [ends_normalizeBlocks_cons, normalizeItems]
      cases normalizeContentBlock p supportsImages block run with
      | error e => rfl
      | ok first =>
        refine Eq.trans ?_ (ih first.2)
        dsimp only
        cases normalizeItems p supportsImages items first.2 <;> rfl
    | _ =>
      -- what is no block stays in its place
      refine Eq.trans ?_ (ih run)
      conv_lhs => unfold normalizeItems
      cases normalizeItems p supportsImages items run <;> rfl

theorem ends_normalizeMultimodalContent (content : Json) (run : PdfRun) :
    ends (normalizeMultimodalContent p supportsImages content run) =
      ends (normalizeBlocks p supportsImages (contentBlocks content) run) := by
  cases content with
  | obj block =>
    show _ = ends (normalizeBlocks p supportsImages [block] run)
    rw [ends_normalizeBlocks_cons, normalizeMultimodalContent]
    cases normalizeContentBlock p supportsImages block run <;> rfl
  | arr items =>
    rw [← ends_normalizeItems, normalizeMultimodalContent]
    cases normalizeItems p supportsImages items run <;> rfl
  | _ => rfl

/-- The messages of a history fare as its blocks do, one after another. -/
theorem ends_normalizeEach (messages : List Message) (run : PdfRun) :
    ends (normalizeEach p supportsImages messages run) =
      ends (normalizeBlocks p supportsImages (historyBlocks messages) run) := by
  induction messages generalizing run with
  | nil => rfl
  | cons message messages ih =>
    rw [historyBlocks, List.flatMap_cons, ends_normalizeBlocks_append,
      ← ends_normalizeMultimodalContent, normalizeEach]
    cases normalizeMultimodalContent p supportsImages message.content run with
    | error e => rfl
    | ok first =>
      refine Eq.trans ?_ (ih first.2)
      dsimp only
      cases normalizeEach p supportsImages messages first.2 <;> rfl

/-- A history in which the limit is hit is given up with one of the two texts. -/
theorem ByteLimitRaised.error {messages : List Message} {run : PdfRun}
    (h : ByteLimitRaised p supportsImages (historyBlocks messages) run) :
    ∃ text, normalizeEach p supportsImages messages run = .error text ∧
      (text = totalLimitText p ∨
        ∃ block ∈ historyBlocks messages, text = fileLimitText p block) := by
  obtain ⟨before, block, after, out, mid, data, bytes, hblocks, hbefore, hdata, hdecode, hlimit⟩ :=
    h
  have hends : ends (normalizeEach p supportsImages messages run) =
      (ends (normalizeContentBlock p supportsImages block mid)).bind fun next =>
        ends (normalizeBlocks p supportsImages after next) := by
    rw [ends_normalizeEach, hblocks, ends_normalizeBlocks_append, hbefore,
      ← ends_normalizeBlocks_cons]
    rfl
  have hraise : ∀ text, pdfFileBlockToText p block data mid.budget = .error text →
      normalizeEach p supportsImages messages run = .error text := by
    intro text htext
    simp only [normalizeContentBlock, hdata, htext] at hends
    cases heach : normalizeEach p supportsImages messages run with
    | error e =>
      rw [heach] at hends
      exact congrArg _ (Except.error.inj hends)
    | ok result =>
      rw [heach] at hends
      cases hends
  rcases pdfFileBlockToText_limit hdecode hlimit with htext | htext
  · exact ⟨_, hraise _ htext, .inr ⟨block, hblocks ▸ by simp, rfl⟩⟩
  · exact ⟨_, hraise _ htext, .inl rfl⟩

/-- **A block** adds the bytes of its attachment to what has been decoded. -/
theorem decodedBytes_normalizeContentBlock {block out : Block} {run run' : PdfRun}
    (h : normalizeContentBlock p supportsImages block run = .ok (out, run')) :
    run'.budget.decodedBytes = run.budget.decodedBytes + decodedSize p block := by
  unfold normalizeContentBlock at h
  split at h
  · rename_i data hdata
    split at h
    · cases h
    · rename_i report budget hreport
      cases h
      obtain ⟨_, hdecode, hbytes, _⟩ := pdfFileBlockToText_spec hreport
      simp only [decodedSize, hdata, hdecode]
      exact hbytes
  · rename_i hdata
    split at h
    · cases h
    · cases h
      simp only [decodedSize, hdata, Nat.add_zero]

theorem decodedBytes_normalizeBlocks {blocks out : List Block} {run run' : PdfRun}
    (h : normalizeBlocks p supportsImages blocks run = .ok (out, run')) :
    run'.budget.decodedBytes = run.budget.decodedBytes + decodedTotal p blocks := by
  induction blocks generalizing run out with
  | nil =>
    cases h
    rfl
  | cons block blocks ih =>
    obtain ⟨first, mid, rest, hfirst, hrest, rfl⟩ := normalizeBlocks_cons h
    rw [ih hrest, decodedBytes_normalizeContentBlock hfirst]
    simp only [decodedTotal, List.map_cons, List.sum_cons]
    omega

/-- A history whose attachments fit together never hits the limit. -/
theorem not_byteLimitRaised {blocks : List Block} (h : decodedTotal p blocks ≤ p.byteLimit) :
    ¬ ByteLimitRaised p supportsImages blocks .start := by
  rintro ⟨before, block, after, out, mid, data, bytes, rfl, hbefore, hdata, hdecode, hlimit⟩
  have hmid := decodedBytes_normalizeBlocks hbefore
  have hsize : decodedSize p block = bytes.length := by
    simp only [decodedSize, hdata, hdecode, Option.map_some, Option.getD_some]
  simp only [decodedTotal, List.map_append, List.map_cons, List.sum_append, List.sum_cons,
    hsize] at h
  have hstart : mid.budget.decodedBytes = (before.map (decodedSize p)).sum := by
    rw [hmid]
    exact Nat.zero_add _
  omega

/-! ## The two checks together -/

/-- One of the byte-limit errors is raised for some answer of the reader of the PDF files. -/
def CanRaiseByteLimit (p : PdfSettings) (supportsImages : Bool) (messages : List Message) : Prop :=
  ∃ pdfReader, ByteLimitRaised { p with pdfReader } supportsImages (historyBlocks messages) .start

/-- `block.get("type")` can be looked up in a set. -/
def HashableType (block : Block) : Bool :=
  match block.get "type" with
  | .arr _ => false
  | .obj _ => false
  | _ => true

/-- The blocks before the last attachment have a type that can be hashed: nothing stops the
    processing before it has come to every attachment. What stands behind them does not matter. -/
def ReachesPdfs : List Block → Prop
  | [] => True
  | block :: blocks =>
      ((∃ b ∈ blocks, (pdfData b).isSome = true) → HashableType block = true) ∧ ReachesPdfs blocks

/-- The data of every PDF attachment is Base64. -/
def CarriesBase64 (blocks : List Block) : Prop :=
  ∀ block ∈ blocks, ∀ data, pdfData block = some data → (b64decode data).isSome

theorem typeIn_ok {block : Block} (h : HashableType block = true) (types : List String) :
    ∃ known, typeIn block types = .ok known := by
  unfold HashableType at h
  unfold typeIn
  split at h
  · cases h
  · cases h
  · rename_i harr hobj
    split
    · rename_i xs hxs
      exact absurd hxs (harr xs)
    · rename_i kvs hkvs
      exact absurd hkvs (hobj kvs)
    · exact ⟨_, rfl⟩
    · exact ⟨_, rfl⟩

/-- Only a type that cannot be hashed stops a block that is no PDF attachment. -/
theorem normalizeOtherBlock_ok {block : Block} (h : HashableType block = true) :
    ∃ out, normalizeOtherBlock supportsImages block = .ok out := by
  have hfrontend : ∃ out, normalizeFrontendMultimodalBlock block = .ok out := by
    obtain ⟨known, hknown⟩ := typeIn_ok h ["image", "file"]
    simp only [normalizeFrontendMultimodalBlock, hknown, bind, Except.bind]
    split
    · split
      · exact ⟨_, rfl⟩
      · exact ⟨_, rfl⟩
    · exact ⟨_, rfl⟩
  have himage : ∃ image, isImageContentBlock block = .ok image := by
    obtain ⟨image, himage⟩ := typeIn_ok h ["image", "image_url", "input_image"]
    obtain ⟨media, hmedia⟩ := typeIn_ok h ["file", "media"]
    simp only [isImageContentBlock, himage, hmedia, bind, Except.bind]
    split
    · exact ⟨_, rfl⟩
    · split
      · exact ⟨_, rfl⟩
      · exact ⟨_, rfl⟩
  obtain ⟨image, himage⟩ := himage
  obtain ⟨out, hout⟩ := hfrontend
  unfold normalizeOtherBlock
  cases supportsImages with
  | true => exact ⟨out, hout⟩
  | false =>
    rw [himage]
    cases image with
    | true => exact ⟨_, rfl⟩
    | false => exact ⟨out, hout⟩

theorem ByteLimitRaised.cons {block first : Block} {blocks : List Block} {run next : PdfRun}
    (hfirst : normalizeContentBlock p supportsImages block run = .ok (first, next))
    (h : ByteLimitRaised p supportsImages blocks next) :
    ByteLimitRaised p supportsImages (block :: blocks) run := by
  obtain ⟨before, reached, after, out, mid, data, bytes, rfl, hbefore, hreached⟩ := h
  refine ⟨block :: before, reached, after, first :: out, mid, data, bytes, rfl, ?_, hreached⟩
  simp only [normalizeBlocks, hfirst, hbefore]

/-- An attachment without pages that fits is replaced by a text. -/
theorem normalizeContentBlock_fits {block : Block} {data : String} {bytes : List UInt8}
    {run : PdfRun}
    (hreader : p.pdfReader bytes = .ok []) (hdata : pdfData block = some data)
    (hdecode : p.b64decode data = some bytes) (hfile : ¬ bytes.length > p.byteLimit)
    (htotal : ¬ run.budget.decodedBytes + bytes.length > p.byteLimit) :
    ∃ out next, normalizeContentBlock p supportsImages block run = .ok (out, next) := by
  have hok : ∃ result, pdfFileBlockToText p block data run.budget = .ok result := by
    unfold pdfFileBlockToText
    simp only [hdecode, if_neg hfile, if_neg htotal, hreader]
    split
    · exact ⟨_, rfl⟩
    · exact ⟨_, rfl⟩
  obtain ⟨⟨report, budget⟩, hok⟩ := hok
  exact ⟨textBlock (report.text p), ⟨budget, run.reports ++ [report]⟩, by
    simp only [normalizeContentBlock, hdata, hok]⟩

/-- Only attachments have a size. -/
theorem exists_pdf_of_pos {blocks : List Block} (h : 0 < decodedTotal p blocks) :
    ∃ block ∈ blocks, (pdfData block).isSome = true := by
  by_contra hnone
  have hzero : ∀ n ∈ blocks.map (decodedSize p), n = 0 := by
    intro n hn
    obtain ⟨block, hb, rfl⟩ := List.mem_map.mp hn
    unfold decodedSize
    cases hdata : pdfData block with
    | none => rfl
    | some data => exact absurd ⟨block, hb, by rw [hdata]; rfl⟩ hnone
  exact absurd (List.sum_eq_zero hzero) (Nat.ne_of_gt h)

/-- A history whose attachments do not fit together hits the limit when no PDF has pages and nothing
    stops it before. -/
theorem byteLimitRaised_of_gt {blocks : List Block} {run : PdfRun}
    (hreader : ∀ bytes, p.pdfReader bytes = .ok [])
    (hdecodes : ∀ block ∈ blocks, ∀ data, pdfData block = some data → (p.b64decode data).isSome)
    (hreaches : ReachesPdfs blocks)
    (hrun : run.budget.decodedBytes ≤ p.byteLimit)
    (h : run.budget.decodedBytes + decodedTotal p blocks > p.byteLimit) :
    ByteLimitRaised p supportsImages blocks run := by
  induction blocks generalizing run with
  | nil => exact absurd hrun (Nat.not_le.mpr h)
  | cons block blocks ih =>
    have hsum : decodedTotal p (block :: blocks) = decodedSize p block + decodedTotal p blocks := by
      simp only [decodedTotal, List.map_cons, List.sum_cons]
    have hcontinue : ∀ first next,
        normalizeContentBlock p supportsImages block run = .ok (first, next) →
          next.budget.decodedBytes ≤ p.byteLimit →
            ByteLimitRaised p supportsImages (block :: blocks) run := by
      intro first next hfirst hnext
      refine .cons hfirst (ih (fun b hb => hdecodes b (List.mem_cons_of_mem _ hb))
        hreaches.2 hnext ?_)
      rw [decodedBytes_normalizeContentBlock hfirst]
      omega
    cases hdata : pdfData block with
    | none =>
      have hsize : decodedSize p block = 0 := by
        unfold decodedSize
        rw [hdata]
      have hpos : 0 < decodedTotal p blocks := by omega
      have hlater : ∃ b ∈ blocks, (pdfData b).isSome = true := exists_pdf_of_pos hpos
      obtain ⟨out, hout⟩ : ∃ out, normalizeOtherBlock supportsImages block = .ok out :=
        normalizeOtherBlock_ok (hreaches.1 hlater)
      refine hcontinue out run ?_ hrun
      simp only [normalizeContentBlock, hdata, hout]
    | some data =>
      obtain ⟨bytes, hdecode⟩ :=
        Option.isSome_iff_exists.mp (hdecodes block List.mem_cons_self data hdata)
      by_cases hlimit : bytes.length > p.byteLimit ∨
          run.budget.decodedBytes + bytes.length > p.byteLimit
      · exact ⟨[], block, blocks, [], run, data, bytes, rfl, rfl, hdata, hdecode, hlimit⟩
      · rw [not_or] at hlimit
        obtain ⟨out, next, hfirst⟩ : ∃ out next,
            normalizeContentBlock p supportsImages block run = .ok (out, next) :=
          normalizeContentBlock_fits (hreader bytes) hdata hdecode hlimit.1 hlimit.2
        refine hcontinue out next hfirst ?_
        rw [decodedBytes_normalizeContentBlock hfirst]
        simp only [decodedSize, hdata, hdecode, Option.map_some, Option.getD_some]
        omega

/-- The decoded sizes are bounded by the estimates, one attachment after another. -/
theorem decodedTotal_le {blocks : List Block} (hp : p.b64decode = b64decode) :
    decodedTotal p blocks ≤ estimatedTotal blocks := by
  induction blocks with
  | nil => exact Nat.le_refl _
  | cons block blocks ih =>
    have hblock : decodedSize p block ≤ estimatedSize block := by
      unfold decodedSize estimatedSize
      rw [hp]
      split
      · rename_i data hdata
        cases hdecode : b64decode data with
        | none => exact Nat.zero_le _
        | some bytes => exact (base64DecodedSize_of_decodes hdecode).1
      · exact Nat.le_refl _
    simp only [decodedTotal, estimatedTotal, List.map_cons, List.sum_cons] at ih ⊢
    exact Nat.add_le_add hblock ih

theorem decodedTotal_eq {blocks : List Block} (hp : p.b64decode = b64decode)
    (hbase64 : CarriesBase64 blocks)
    (hexact : ∀ block ∈ blocks, ∀ data, pdfData block = some data → ¬ SurplusPadding data) :
    decodedTotal p blocks = estimatedTotal blocks := by
  induction blocks with
  | nil => rfl
  | cons block blocks ih =>
    have hblock : decodedSize p block = estimatedSize block := by
      unfold decodedSize estimatedSize
      rw [hp]
      split
      · rename_i data hdata
        obtain ⟨bytes, hdecode⟩ :=
          Option.isSome_iff_exists.mp (hbase64 block List.mem_cons_self data hdata)
        rw [hdecode]
        exact ((base64DecodedSize_of_decodes hdecode).2.mpr
          (hexact block List.mem_cons_self data hdata)).symm
      · rfl
    have hrest := ih (fun b hb => hbase64 b (List.mem_cons_of_mem _ hb))
      (fun b hb => hexact b (List.mem_cons_of_mem _ hb))
    simp only [decodedTotal, estimatedTotal, List.map_cons, List.sum_cons] at hrest ⊢
    rw [hblock, hrest]

/-- **The estimate and the bytes agree**, as far as there is no padding behind a complete group: the
    estimate of what decodes is never below the size of the bytes, and a history that has passed
    the check cannot exceed a limit later. One that the check refuses would have, unless an
    attachment has surplus padding or another block stands in the way of one. -/
theorem base64_sizes_agree (hp : p.b64decode = b64decode) :
    (∀ data bytes, b64decode data = some bytes → bytes.length ≤ base64DecodedSize data ∧
      (base64DecodedSize data = bytes.length ↔ ¬ SurplusPadding data)) ∧
    ∀ messages, CarriesBase64 (historyBlocks messages) →
      ((historyBlocks messages).filter isPdfFileBlock).length ≤ p.maxAttachments →
        (validatePdfHistoryBlocks p (historyBlocks messages) = .ok () →
          ¬ CanRaiseByteLimit p supportsImages messages) ∧
        (ReachesPdfs (historyBlocks messages) →
          (∀ block ∈ historyBlocks messages, ∀ data, pdfData block = some data →
            ¬ SurplusPadding data) →
          ¬ CanRaiseByteLimit p supportsImages messages →
            validatePdfHistoryBlocks p (historyBlocks messages) = .ok ()) := by
  refine ⟨fun data bytes h => base64DecodedSize_of_decodes h, ?_⟩
  intro messages hbase64 hcount
  rw [validatePdfHistoryBlocks_iff hcount]
  constructor
  · rintro hle ⟨pdfReader, hraised⟩
    exact not_byteLimitRaised (p := { p with pdfReader })
      (Nat.le_trans (decodedTotal_le hp) hle) hraised
  · intro hreaches hexact hnot
    refine Classical.byContradiction fun hgt => hnot ⟨fun _ => .ok [], ?_⟩
    refine byteLimitRaised_of_gt (fun _ => rfl) ?_ hreaches (Nat.zero_le _) ?_
    · intro block hb data hdata
      rw [hp]
      exact hbase64 block hb data hdata
    · have htotal : decodedTotal { p with pdfReader := fun _ => .ok [] } (historyBlocks messages) =
          estimatedTotal (historyBlocks messages) :=
        decodedTotal_eq (p := { p with pdfReader := fun _ => .ok [] }) hp hbase64 hexact
      rw [htotal]
      have hzero : PdfRun.start.budget.decodedBytes = 0 := rfl
      rw [hzero, Nat.zero_add]
      exact Nat.not_le.mp hgt

/-- Limits of a few bytes -/
def limited (bytes : Nat) : PdfSettings :=
  { smallSettings with maxUploadBytes := bytes, b64decode := b64decode }

theorem twoAttachments_blocks {block : Block} (h : block ∈ historyBlocks twoAttachments) :
    pdfData block = some "JVBERi0=" := by
  rcases List.mem_cons.mp h with rfl | h
  · rfl
  · rw [List.mem_singleton.mp h]
    rfl

theorem carriesBase64_two : CarriesBase64 (historyBlocks twoAttachments) := by
  intro block hb data hdata
  rw [twoAttachments_blocks hb] at hdata
  rw [← Option.some.inj hdata]
  decide

theorem estimatedTotal_two : estimatedTotal (historyBlocks twoAttachments) = 10 := by rfl

/-- Two attachments of five bytes pass both checks with ten bytes and neither with nine. -/
theorem base64_sizes_agree_two :
    base64DecodedSize "JVBERi0=" = 5 ∧ ¬ CanRaiseByteLimit (limited 10) false twoAttachments ∧
      CanRaiseByteLimit (limited 9) false twoAttachments := by
  have hcount : ((historyBlocks twoAttachments).filter isPdfFileBlock).length ≤ 3 := by decide
  refine ⟨?_, ?_, ?_⟩
  · have hdecode : b64decode "JVBERi0=" = some [37, 80, 68, 70, 45] := by decide
    have hsizes := (@base64_sizes_agree (limited 10) false rfl).1 _ _ hdecode
    exact hsizes.2.mpr (by decide)
  · refine ((@base64_sizes_agree (limited 10) false rfl).2 _ carriesBase64_two hcount).1 ?_
    rw [validatePdfHistoryBlocks_iff hcount, estimatedTotal_two]
    decide
  · refine Classical.byContradiction fun hnot => ?_
    have hreaches : ReachesPdfs (historyBlocks twoAttachments) :=
      ⟨fun _ => rfl, fun _ => rfl, trivial⟩
    have hok :=
      ((@base64_sizes_agree (limited 9) false rfl).2 _ carriesBase64_two hcount).2 hreaches ?_ hnot
    · rw [validatePdfHistoryBlocks_iff hcount, estimatedTotal_two] at hok
      exact absurd hok (by decide)
    · intro block hb data hdata
      rw [twoAttachments_blocks hb] at hdata
      rw [← Option.some.inj hdata]
      decide

def pdfBlock (data : String) : Block :=
  [("type", .str "file"), ("mime_type", .str "application/pdf"), ("data", .str data)]

/-- A PDF of three bytes with padding behind its only group -/
def surplusHistory : List Message := [.base "human" (.obj (pdfBlock "AAAA===="))]

/-- A PDF of three bytes behind a block whose type is a list -/
def stoppedHistory : List Message :=
  [.base "human" (.arr [.obj [("type", .arr [])], .obj (pdfBlock "AAAA")])]

/-- **The estimate is not exact**: four characters of padding behind a complete group decode to
    nothing and are counted as a byte, so that the check refuses three bytes with a limit of three.
    A history that is given up for another reason never gets to the limit it has been refused
    for. -/
theorem base64_sizes_disagree :
    (b64decode "AAAA====" = some [0, 0, 0] ∧ base64DecodedSize "AAAA====" = 4) ∧
    (CarriesBase64 (historyBlocks surplusHistory) ∧
      validatePdfHistoryBlocks (limited 3) (historyBlocks surplusHistory) ≠ .ok () ∧
      ¬ CanRaiseByteLimit (limited 3) false surplusHistory) ∧
    CarriesBase64 (historyBlocks stoppedHistory) ∧
      validatePdfHistoryBlocks (limited 2) (historyBlocks stoppedHistory) ≠ .ok () ∧
      ¬ CanRaiseByteLimit (limited 2) false stoppedHistory := by
  have hdecode : b64decode "AAAA====" = some [0, 0, 0] := by decide
  have hcount : ∀ messages ∈ [surplusHistory, stoppedHistory],
      ((historyBlocks messages).filter isPdfFileBlock).length ≤ 3 := by decide
  refine ⟨⟨hdecode, by decide⟩, ⟨?_, ?_, ?_⟩, ?_, ?_, ?_⟩
  · intro block hb data hdata
    rw [List.mem_singleton.mp hb] at hdata
    rw [← Option.some.inj hdata, hdecode]
    rfl
  · rw [ne_eq, validatePdfHistoryBlocks_iff (hcount _ (by simp))]
    have htotal : estimatedTotal (historyBlocks surplusHistory) = 4 := by rfl
    rw [htotal]
    decide
  · rintro ⟨pdfReader, hraised⟩
    refine not_byteLimitRaised (p := { limited 3 with pdfReader }) ?_ hraised
    have htotal : decodedTotal { limited 3 with pdfReader } (historyBlocks surplusHistory) = 3 := by
      rfl
    rw [htotal]
    exact Nat.le_refl 3
  · intro block hb data hdata
    rcases List.mem_cons.mp hb with rfl | hb
    · cases hdata
    · rw [List.mem_singleton.mp hb] at hdata
      rw [← Option.some.inj hdata]
      decide
  · rw [ne_eq, validatePdfHistoryBlocks_iff (hcount _ (by simp))]
    have htotal : estimatedTotal (historyBlocks stoppedHistory) = 3 := by rfl
    rw [htotal]
    decide
  · rintro ⟨pdfReader, before, block, after, out, mid, data, bytes, hblocks, hbefore, hdata, _⟩
    cases before with
    | nil =>
      cases hblocks
      cases hdata
    | cons first before =>
      obtain ⟨_, _, _, hfirst, _⟩ := normalizeBlocks_cons hbefore
      rw [← (List.cons.inj hblocks).1] at hfirst
      cases hfirst

end Multimodal

end HyChat
