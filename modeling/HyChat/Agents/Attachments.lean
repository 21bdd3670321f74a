import HyChat.Agents.ImageFree
import HyChat.Frontend.FileUpload

/-!
# What has been attached arrives

The browser turns files into content blocks and submits them with what has been typed; the server
normalises the history before the model reads it. A text file arrives as the block it was made, an
image as a Base64 source or as a notice, a PDF as the beginning of its text under its name.

An image without a type in lower case, as no browser gives it, would be sent as a PDF; and a PDF
without any bytes has no data the server would look at, so that it is passed on like a file of
another type.
-/

set_option autoImplicit false

namespace HyChat

open Lib Chat Multimodal

namespace Frontend

/-! ## What is submitted -/

/-- The text block of `handleSubmit`, when more than blanks have been typed -/
def typedItem (input : String) : List Json :=
  if (Js.trim input.toList).isEmpty then [] else [.obj [("type", .str "text"), ("text", .str input)]]

/-- The message of `handleSubmit` -/
def submitted (input : String) (contentBlocks : List Block) : Multimodal.Message :=
  .base "human" (.arr (typedItem input ++ contentBlocks.map Json.obj))

/-- The image block of `fileToContentBlock` -/
def imageBlock (file : File) (contents : Contents) : Block :=
  let payload := imageToBase64Payload file contents
  [("type", .str "image"),
    ("mimeType", .str payload.mimeType),
    ("data", .str payload.data),
    ("metadata", .obj
      [("name", .str file.name),
        ("originalMimeType", .str file.type),
        ("originalSize", .int file.size),
        ("size", .int payload.size),
        ("optimized", .bool payload.optimized)])]

/-- Its last block, which is meant for PDFs -/
def pdfBlock (file : File) (contents : Contents) : Block :=
  [("type", .str "file"),
    ("mimeType", .str "application/pdf"),
    ("data", .str contents.data),
    ("metadata", .obj [("filename", .str file.name)])]

/-- Which block a file becomes -/
inductive FileKind
  | text
  | image
  | pdf

def File.kind (file : File) : FileKind :=
  if isSupportedTextFile file then .text
  else if file.type ∈ supportedImageTypes then .image
  else .pdf

theorem fileToContentBlock_kind {file : File} {allowImages : Bool} {contents : Contents}
    {block : Block} (h : fileToContentBlock file allowImages contents = some block) :
    block = match file.kind with
      | .text => textFileToContentBlock file contents
      | .image => imageBlock file contents
      | .pdf => pdfBlock file contents := by
  unfold fileToContentBlock at h
  unfold File.kind
  split at h
  · cases h
  · split at h
    · rename_i htext
      rw [if_pos htext]
      exact (Option.some.inj h).symm
    · rename_i htext
      rw [if_neg htext]
      split at h
      · rename_i himage
        rw [if_pos himage]
        exact (Option.some.inj h).symm
      · rename_i himage
        rw [if_neg himage]
        exact (Option.some.inj h).symm

/-! ## What arrives -/

/-- What is added to a block with a Base64 source -/
def sourceFields (mimeType : String) : Block :=
  [("source_type", .str "base64"), ("mime_type", .str mimeType)]

/-- The name of a file, unless it is blank -/
def nameOr (file : File) (default : String) : String := (label? (.str file.name)).getD default

def imageNotice (file : File) : String :=
  let filename := nameOr file "图片附件"
  s!"[用户上传了图片：{filename}。当前所选模型不支持读取图片内容。" ++
    "请不要推测图片内容，并提示用户改用文字描述。]"

/-- A PDF without data gets its name as a field when it has one. -/
def emptyPdfBlock (file : File) (contents : Contents) : Block :=
  pdfBlock file contents ++ sourceFields "application/pdf" ++
    if (label? (.str file.name)).isSome then [("filename", .str file.name)] else []

/-- What the model reads in place of the attachment -/
def Arrives (p : PdfSettings) (supportsImages : Bool) (o : Origin) (out : Block) : Prop :=
  match o.file.kind with
  | .text => out = textFileToContentBlock o.file o.contents
  | .image =>
      out = if supportsImages then
          imageBlock o.file o.contents ++
            sourceFields (imageToBase64Payload o.file o.contents).mimeType
        else textBlock (imageNotice o.file)
  | .pdf =>
      if o.contents.data = "" then out = emptyPdfBlock o.file o.contents
      else ∃ report : PdfReport, report.filename = nameOr o.file "document.pdf" ∧
        p.b64decode o.contents.data = some report.pdfBytes ∧
        (∃ earlier, report.Exact p earlier) ∧ out = textBlock (report.text p)

variable {p : PdfSettings} {supportsImages : Bool}

/-! ## One block -/

theorem typeIn_of_str {block : Block} {type : String} (h : block.get "type" = .str type)
    (types : List String) : typeIn block types = .ok (types.contains type) := by
  unfold typeIn
  rw [h]

/-- Only a file is a PDF. -/
theorem pdfData_of_type {block : Block} {type : String} (h : block.get "type" = .str type)
    (hfile : type ≠ "file") : pdfData block = none := by
  have hpdf : isPdfFileBlock block = false := by
    unfold isPdfFileBlock
    rw [h]
    simp [hfile]
  unfold pdfData
  rw [hpdf]

/-- What is no PDF with data becomes what the other rules make of it. -/
theorem normalizeContentBlock_other {block out : Block} (hdata : pdfData block = none)
    (hother : normalizeOtherBlock supportsImages block = .ok out) (run : PdfRun) :
    normalizeContentBlock p supportsImages block run = .ok (out, run) := by
  unfold normalizeContentBlock
  rw [hdata, hother]

theorem normalizeOtherBlock_noImage {block : Block} (h : isImageContentBlock block = .ok false) :
    normalizeOtherBlock supportsImages block = normalizeFrontendMultimodalBlock block := by
  unfold normalizeOtherBlock
  rw [h]
  cases supportsImages with
  | true => rfl
  | false => rfl

theorem normalizeOtherBlock_image {block : Block} (h : isImageContentBlock block = .ok true) :
    normalizeOtherBlock supportsImages block =
      if supportsImages then normalizeFrontendMultimodalBlock block
      else .ok (unsupportedImageTextBlock block) := by
  unfold normalizeOtherBlock
  rw [h]
  cases supportsImages with
  | true => rfl
  | false => rfl

/-- A text block is left as it is, whatever else it holds. -/
theorem normalizeContentBlock_text {block : Block} (h : block.get "type" = .str "text")
    (run : PdfRun) : normalizeContentBlock p supportsImages block run = .ok (block, run) := by
  have himage : isImageContentBlock block = .ok false := by
    unfold isImageContentBlock
    rw [typeIn_of_str h, typeIn_of_str h, h]
    rfl
  refine normalizeContentBlock_other (pdfData_of_type h (by simp)) ?_ run
  rw [normalizeOtherBlock_noImage himage]
  unfold normalizeFrontendMultimodalBlock
  rw [typeIn_of_str h]
  rfl

/-! ### Images -/

theorem withSource_imageBlock (file : File) (contents : Contents) (mimeType : String) :
    withSource (imageBlock file contents) mimeType =
      imageBlock file contents ++ sourceFields mimeType := by
  have htype : (imageBlock file contents).get "type" = .str "image" := rfl
  unfold withSource
  cases frontendFilename (imageBlock file contents) with
  | none => rfl
  | some filename =>
    simp only [htype, Json.str.injEq, String.reduceEq, false_and, if_false]
    rfl

theorem normalizeContentBlock_imageBlock (file : File) (contents : Contents) (run : PdfRun) :
    normalizeContentBlock p supportsImages (imageBlock file contents) run =
      .ok (if supportsImages then
          imageBlock file contents ++ sourceFields (imageToBase64Payload file contents).mimeType
        else textBlock (imageNotice file), run) := by
  have htype : (imageBlock file contents).get "type" = .str "image" := rfl
  have hmime : (imageBlock file contents).firstOf ["mime_type", "mimeType"] =
      .str (imageToBase64Payload file contents).mimeType := rfl
  refine normalizeContentBlock_other (pdfData_of_type htype (by simp)) ?_ run
  rw [normalizeOtherBlock_image rfl]
  cases supportsImages with
  | true =>
    rw [if_pos rfl, if_pos rfl, ← withSource_imageBlock]
    unfold normalizeFrontendMultimodalBlock
    rw [typeIn_of_str htype, hmime]
    rfl
  | false => rfl

/-! ### PDFs -/

theorem label_firstOf (file : File) :
    label? (Block.firstOf [("filename", .str file.name)] ["filename", "name"]) =
      label? (.str file.name) := by
  have hget : Block.get [("filename", .str file.name)] "filename" = .str file.name := rfl
  rw [firstOf_cons, hget]
  by_cases hblank : file.name = ""
  · rw [hblank]
    rfl
  · have htrue : truthy (.str file.name) = true := by simp [truthy, hblank]
    rw [if_pos htrue]

theorem attachmentFilename_pdfBlock (file : File) (contents : Contents) :
    attachmentFilename (pdfBlock file contents) = nameOr file "document.pdf" := by
  have hnone : truthy ((pdfBlock file contents).get "filename") = false := rfl
  have hmetadata : (pdfBlock file contents).get "metadata" =
      .obj [("filename", .str file.name)] := rfl
  unfold attachmentFilename nameOr
  rw [hnone, hmetadata, ← label_firstOf]

/-- A name that is not blank is copied as it is. -/
theorem frontendFilename_pdfBlock (file : File) (contents : Contents) :
    frontendFilename (pdfBlock file contents) =
      if (label? (.str file.name)).isSome then some (.str file.name) else none := by
  have hmetadata : (pdfBlock file contents).get "metadata" =
      .obj [("filename", .str file.name)] := rfl
  unfold frontendFilename
  rw [hmetadata]
  simp only [label_firstOf]
  split
  · rename_i hlabel
    have hname : file.name ≠ "" := by
      intro hblank
      rw [hblank] at hlabel
      cases hlabel
    have hget : Block.get [("filename", .str file.name)] "filename" = .str file.name := rfl
    have htrue : truthy (.str file.name) = true := by simp [truthy, hname]
    rw [firstOf_cons, hget, if_pos htrue]
  · rfl

theorem withSource_pdfBlock (file : File) (contents : Contents) :
    withSource (pdfBlock file contents) "application/pdf" = emptyPdfBlock file contents := by
  unfold withSource emptyPdfBlock
  rw [frontendFilename_pdfBlock]
  cases label? (.str file.name) with
  | none => rfl
  | some name => rfl

theorem pdfData_pdfBlock (file : File) (contents : Contents) :
    pdfData (pdfBlock file contents) =
      if contents.data = "" then none else some contents.data := by
  have hpdf : isPdfFileBlock (pdfBlock file contents) = true := rfl
  have hget : (pdfBlock file contents).get "data" = .str contents.data := rfl
  unfold pdfData
  rw [hpdf, firstOf_cons, hget]
  by_cases hempty : contents.data = ""
  · rw [if_pos hempty, hempty]
    rfl
  · have htrue : truthy (.str contents.data) = true := by simp [truthy, hempty]
    rw [if_neg hempty, if_pos htrue]

/-- A PDF without data is passed on. -/
theorem normalizeContentBlock_emptyPdf {file : File} {contents : Contents}
    (hempty : contents.data = "") (run : PdfRun) :
    normalizeContentBlock p supportsImages (pdfBlock file contents) run =
      .ok (emptyPdfBlock file contents, run) := by
  have htype : (pdfBlock file contents).get "type" = .str "file" := rfl
  have hmime : (pdfBlock file contents).firstOf ["mime_type", "mimeType"] =
      .str "application/pdf" := rfl
  have hdata : pdfData (pdfBlock file contents) = none := by
    rw [pdfData_pdfBlock, if_pos hempty]
  refine normalizeContentBlock_other hdata ?_ run
  rw [normalizeOtherBlock_noImage rfl, ← withSource_pdfBlock]
  unfold normalizeFrontendMultimodalBlock
  rw [typeIn_of_str htype, hmime]
  rfl

/-- A PDF with data becomes the text of its report. -/
theorem normalizeContentBlock_pdf {file : File} {contents : Contents} {run run' : PdfRun}
    {out : Block} (hdata : contents.data ≠ "")
    (h : normalizeContentBlock p supportsImages (pdfBlock file contents) run = .ok (out, run')) :
    ∃ report : PdfReport, report.filename = nameOr file "document.pdf" ∧
      p.b64decode contents.data = some report.pdfBytes ∧
      (∃ earlier, report.Exact p earlier) ∧ out = textBlock (report.text p) := by
  unfold normalizeContentBlock at h
  rw [pdfData_pdfBlock, if_neg hdata] at h
  simp only at h
  split at h
  · cases h
  · rename_i report budget hreport
    cases h
    obtain ⟨hname, hdecode, -, -, -, -, hexact⟩ := pdfFileBlockToText_spec hreport
    rw [attachmentFilename_pdfBlock] at hname
    exact ⟨report, hname, hdecode, ⟨_, hexact⟩, rfl⟩

/-! ## One attachment -/

/-- The attachment is no PDF. -/
def Attachment.NoPdf (a : Attachment) : Prop := ∃ o ∈ a.origin, o.file.kind ≠ .pdf

theorem arrives {o : Origin} {block out : Block} {run run' : PdfRun}
    (hmade : fileToContentBlock o.file o.allowImages o.contents = some block)
    (h : normalizeContentBlock p supportsImages block run = .ok (out, run')) :
    Arrives p supportsImages o out := by
  rw [fileToContentBlock_kind hmade] at h
  unfold Arrives
  cases hkind : o.file.kind with
  | text =>
    simp only [hkind] at h
    rw [normalizeContentBlock_text rfl] at h
    cases h
    rfl
  | image =>
    simp only [hkind] at h
    rw [normalizeContentBlock_imageBlock] at h
    cases h
    rfl
  | pdf =>
    simp only [hkind] at h ⊢
    split
    · rename_i hempty
      rw [normalizeContentBlock_emptyPdf hempty] at h
      cases h
      rfl
    · rename_i hdata
      exact normalizeContentBlock_pdf hdata h

theorem Attachment.NoPdf.block {a : Attachment} (h : a.NoPdf) (hmade : a.Made) :
    isPdfFileBlock a.block = false := by
  obtain ⟨o, ho, hkind⟩ := h
  rw [fileToContentBlock_kind (hmade o ho)]
  cases hfile : o.file.kind with
  | text => rfl
  | image => rfl
  | pdf => exact absurd hfile hkind

/-- A text or an image is normalised whatever the budget of the PDFs is. -/
theorem Attachment.NoPdf.normalizes {a : Attachment} (h : a.NoPdf) (hmade : a.Made) :
    ∃ out, ∀ run, normalizeContentBlock p supportsImages a.block run = .ok (out, run) := by
  obtain ⟨o, ho, hkind⟩ := h
  rw [fileToContentBlock_kind (hmade o ho)]
  cases hfile : o.file.kind with
  | text => exact ⟨_, normalizeContentBlock_text rfl⟩
  | image => exact ⟨_, normalizeContentBlock_imageBlock _ _⟩
  | pdf => exact absurd hfile hkind

/-! ## The message -/

/-- The attachments and what they have become -/
abbrev Arrived (p : PdfSettings) (supportsImages : Bool) : List Attachment → List Block → Prop :=
  List.Forall₂ fun a out => ∀ o ∈ a.origin, Arrives p supportsImages o out

variable {attachments : List Attachment} {input : String}

theorem normalizeItems_attachments (hmade : ∀ a ∈ attachments, a.Made) {out : List Json}
    {run run' : PdfRun}
    (h : normalizeItems p supportsImages ((attachments.map (·.block)).map Json.obj) run =
      .ok (out, run')) :
    ∃ blocks : List Block, out = blocks.map Json.obj ∧
      Arrived p supportsImages attachments blocks := by
  induction attachments generalizing out run with
  | nil =>
    cases h
    exact ⟨[], rfl, .nil⟩
  | cons a attachments ih =>
    obtain ⟨first, mid, rest, hfirst, hrest, rfl⟩ := normalizeItems_cons h
    obtain ⟨blocks, rfl, harrived⟩ := ih (fun b hb => hmade b (List.mem_cons_of_mem _ hb)) hrest
    cases hfirst with
    | @block _ out _ hblock =>
      refine ⟨out :: blocks, rfl, .cons (fun o ho => ?_) harrived⟩
      exact arrives (hmade a List.mem_cons_self o ho) hblock
    | other hitem => exact absurd rfl (hitem a.block)

/-- What has been typed stays. -/
theorem normalizeItems_typed (items : List Json) (run : PdfRun) :
    normalizeItems p supportsImages (typedItem input ++ items) run =
      (normalizeItems p supportsImages items run).map fun (out, run) =>
        (typedItem input ++ out, run) := by
  unfold typedItem
  split
  · rw [List.nil_append]
    cases normalizeItems p supportsImages items run with
    | error e => rfl
    | ok out => rfl
  · have htext : normalizeContentBlock p supportsImages
        [("type", .str "text"), ("text", .str input)] run = .ok (_, run) :=
      normalizeContentBlock_text rfl run
    simp only [List.singleton_append, normalizeItems, htext]
    cases normalizeItems p supportsImages items run with
    | error e => rfl
    | ok out => rfl

theorem normalizeContent_submitted (hmade : ∀ a ∈ attachments, a.Made) {out : Json}
    {run run' : PdfRun}
    (h : normalizeMultimodalContent p supportsImages
      (submitted input (attachments.map (·.block))).content run = .ok (out, run')) :
    ∃ blocks, (submitted input (attachments.map (·.block))).withContent out =
        submitted input blocks ∧ Arrived p supportsImages attachments blocks := by
  simp only [submitted, Message.content, normalizeMultimodalContent] at h
  rw [normalizeItems_typed] at h
  cases hitems : normalizeItems p supportsImages ((attachments.map (·.block)).map Json.obj) run with
  | error e =>
    rw [hitems] at h
    cases h
  | ok result =>
    rw [hitems] at h
    cases h
    obtain ⟨blocks, hblocks, harrived⟩ := normalizeItems_attachments hmade hitems
    refine ⟨blocks, ?_, harrived⟩
    simp only [submitted, Message.withContent, hblocks]

/-- Without PDFs the message is normalised whatever came before it. -/
theorem normalizeContent_noPdf (hmade : ∀ a ∈ attachments, a.Made)
    (hplain : ∀ a ∈ attachments, a.NoPdf) :
    ∃ out, ∀ run, normalizeMultimodalContent p supportsImages
      (submitted input (attachments.map (·.block))).content run = .ok (out, run) := by
  have hitems : ∃ out, ∀ run, normalizeItems p supportsImages
      ((attachments.map (·.block)).map Json.obj) run = .ok (out, run) := by
    induction attachments with
    | nil => exact ⟨[], fun _ => rfl⟩
    | cons a attachments ih =>
      obtain ⟨rest, hrest⟩ := ih (fun b hb => hmade b (List.mem_cons_of_mem _ hb))
        fun b hb => hplain b (List.mem_cons_of_mem _ hb)
      have hone : ∃ out, ∀ run,
          normalizeContentBlock p supportsImages a.block run = .ok (out, run) :=
        (hplain a List.mem_cons_self).normalizes (hmade a List.mem_cons_self)
      obtain ⟨first, hfirst⟩ := hone
      refine ⟨.obj first :: rest, fun run => ?_⟩
      simp only [List.map_cons, normalizeItems, hfirst, hrest]
  obtain ⟨out, hout⟩ := hitems
  refine ⟨.arr (typedItem input ++ out), fun run => ?_⟩
  simp only [submitted, Message.content, normalizeMultimodalContent]
  rw [normalizeItems_typed, hout]
  rfl

/-! ## The history -/

theorem normalizeEach_cons {message : Multimodal.Message} {messages out : List Multimodal.Message}
    {run run' : PdfRun}
    (h : normalizeEach p supportsImages (message :: messages) run = .ok (out, run')) :
    ∃ content mid rest,
      normalizeMultimodalContent p supportsImages message.content run = .ok (content, mid) ∧
      normalizeEach p supportsImages messages mid = .ok (rest, run') ∧
      out = message.withContent content :: rest := by
  unfold normalizeEach at h
  split at h
  · cases h
  · rename_i content mid hcontent
    split at h
    · cases h
    · rename_i rest last hrest
      cases h
      exact ⟨content, mid, rest, hcontent, hrest, rfl⟩

/-- Every message of a history has its own place in the result. -/
theorem normalizeEach_middle {before after out : List Multimodal.Message}
    {message : Multimodal.Message} {run run' : PdfRun}
    (h : normalizeEach p supportsImages (before ++ message :: after) run = .ok (out, run')) :
    ∃ before' content after' mid mid', before'.length = before.length ∧
      out = before' ++ message.withContent content :: after' ∧
      normalizeMultimodalContent p supportsImages message.content mid = .ok (content, mid') := by
  induction before generalizing out run with
  | nil =>
    obtain ⟨content, mid, rest, hcontent, -, rfl⟩ := normalizeEach_cons h
    exact ⟨[], content, rest, run, mid, rfl, rfl, hcontent⟩
  | cons first before ih =>
    obtain ⟨content, mid, rest, -, hrest, rfl⟩ := normalizeEach_cons h
    obtain ⟨before', middle, after', mid, mid', hlength, rfl, hmiddle⟩ := ih hrest
    exact ⟨_ :: before', middle, after', mid, mid', congrArg (· + 1) hlength, rfl, hmiddle⟩

/-- A message that leaves the budget alone does not change what becomes of the others. -/
theorem normalizeEach_insert {message : Multimodal.Message} {content : Json}
    (hcontent : ∀ run,
      normalizeMultimodalContent p supportsImages message.content run = .ok (content, run))
    (before after : List Multimodal.Message) (run : PdfRun) :
    normalizeEach p supportsImages (before ++ message :: after) run =
      (normalizeEach p supportsImages (before ++ after) run).map fun (out, run) =>
        (out.take before.length ++ message.withContent content :: out.drop before.length, run) := by
  induction before generalizing run with
  | nil =>
    simp only [List.nil_append, normalizeEach, hcontent]
    cases normalizeEach p supportsImages after run with
    | error e => rfl
    | ok out => rfl
  | cons first before ih =>
    simp only [List.cons_append, normalizeEach]
    cases normalizeMultimodalContent p supportsImages first.content run with
    | error e => rfl
    | ok result =>
      simp only [ih]
      cases normalizeEach p supportsImages (before ++ after) result.2 with
      | error e => rfl
      | ok out => rfl

/-- The limits look at the PDFs only. -/
theorem validatePdfHistoryBlocks_congr {blocks other : List Block}
    (h : blocks.filter isPdfFileBlock = other.filter isPdfFileBlock) :
    validatePdfHistoryBlocks p blocks = validatePdfHistoryBlocks p other := by
  unfold validatePdfHistoryBlocks
  rw [h]

theorem historyBlocks_submitted (hmade : ∀ a ∈ attachments, a.Made)
    (hplain : ∀ a ∈ attachments, a.NoPdf) (before after : List Multimodal.Message) :
    (historyBlocks (before ++ submitted input (attachments.map (·.block)) :: after)).filter
        isPdfFileBlock =
      (historyBlocks (before ++ after)).filter isPdfFileBlock := by
  have htyped : (contentBlocks (.arr (typedItem input))).filter isPdfFileBlock = [] := by
    unfold typedItem
    split
    · rfl
    · rfl
  have hblocks : (contentBlocks (.arr ((attachments.map (·.block)).map Json.obj))).filter
      isPdfFileBlock = [] := by
    refine List.filter_eq_nil_iff.mpr fun block hblock => ?_
    obtain ⟨item, hitem, hobj⟩ := List.mem_filterMap.mp hblock
    obtain ⟨own, hown, rfl⟩ := List.mem_map.mp hitem
    obtain ⟨a, ha, rfl⟩ := List.mem_map.mp hown
    obtain rfl := Option.some.inj hobj
    rw [(hplain a ha).block (hmade a ha)]
    exact Bool.false_ne_true
  have hmessage : (contentBlocks (submitted input (attachments.map (·.block))).content).filter
      isPdfFileBlock = [] := by
    simp only [submitted, Message.content, contentBlocks, List.filterMap_append,
      List.filter_append] at htyped hblocks ⊢
    rw [htyped, hblocks]
    rfl
  simp only [historyBlocks, List.flatMap_append, List.flatMap_cons, List.filter_append, hmessage,
    List.nil_append]

/-! ## What has been attached arrives -/

/-- **What has been attached arrives.** In every run of the upload hook, the message that is
    submitted with its attachments keeps its place, its text and the order of its attachments when
    the server normalises the history, and each attachment arrives as what its file is. Without PDFs
    it makes no request fail, and changes nothing about the other messages. -/
theorem attachments_arrive (initialBlocks : List Block) (allowImages : Bool)
    (resetKey : Option String) {s : UploadState}
    (hs : useFileUpload.Reach Lts.Anything (.start initialBlocks allowImages resetKey) s)
    (p : PdfSettings) (supportsImages : Bool) (input : String)
    (before after : List Multimodal.Message) :
    (∀ out run, normalizeMultimodalMessages p supportsImages
        (before ++ submitted input (s.contentBlocks.map (·.block)) :: after) = .ok (out, run) →
      ∃ before' blocks after', before'.length = before.length ∧
        out = before' ++ submitted input blocks :: after' ∧
        Arrived p supportsImages s.contentBlocks blocks) ∧
    ((∀ a ∈ s.contentBlocks, a.NoPdf) → ∃ blocks, Arrived p supportsImages s.contentBlocks blocks ∧
      normalizeMultimodalMessages p supportsImages
          (before ++ submitted input (s.contentBlocks.map (·.block)) :: after) =
        (normalizeMultimodalMessages p supportsImages (before ++ after)).map fun (out, run) =>
          (out.take before.length ++ submitted input blocks :: out.drop before.length, run)) := by
  have hsound : s.Sound := hs.invariant (UploadState.sound_start initialBlocks allowImages resetKey)
    fun _ _ _ hi _ hstep => hi.step hstep
  have hmade := hsound.made
  refine ⟨fun out run h => ?_, fun hplain => ?_⟩
  · unfold normalizeMultimodalMessages at h
    split at h
    · cases h
    · obtain ⟨before', content, after', mid, mid', hlength, rfl, hcontent⟩ :=
        normalizeEach_middle h
      obtain ⟨blocks, hblocks, harrived⟩ := normalizeContent_submitted hmade hcontent
      exact ⟨before', blocks, after', hlength, by rw [hblocks], harrived⟩
  · have hnormal : ∃ content, ∀ run, normalizeMultimodalContent p supportsImages
        (submitted input (s.contentBlocks.map (·.block))).content run = .ok (content, run) :=
      normalizeContent_noPdf hmade hplain
    obtain ⟨content, hcontent⟩ := hnormal
    obtain ⟨blocks, hblocks, harrived⟩ := normalizeContent_submitted hmade (hcontent .start)
    refine ⟨blocks, harrived, ?_⟩
    unfold normalizeMultimodalMessages
    rw [validatePdfHistoryBlocks_congr (historyBlocks_submitted hmade hplain before after)]
    cases validatePdfHistoryBlocks p (historyBlocks (before ++ after)) with
    | error e => rfl
    | ok u =>
      simp only [normalizeEach_insert hcontent, hblocks]

def minutes : File := ⟨"minutes.pdf", "application/pdf", 5⟩

def minutesContents : Contents := ⟨"JVBERi0=", "", false, none, none⟩

/-- A text and a PDF, attached together, arrive. -/
theorem attachments_arrive_two : ∃ (s : UploadState) (before : List Multimodal.Message)
    (blocks : List Block) (after : List Multimodal.Message) (run : PdfRun),
      s.contentBlocks.length = 2 ∧ normalizeMultimodalMessages smallSettings false
        [submitted "请看附件" (s.contentBlocks.map (·.block))] =
          .ok (before ++ submitted "请看附件" blocks :: after, run) ∧
      Arrived smallSettings false s.contentBlocks blocks := by
  obtain ⟨s, hs, hp⟩ := Lts.exists_of_run useFileUpload (.start [] false none)
    [.effects, .addFiles 0 [notes, minutes], .converted 0 [notesContents, minutesContents]]
    (P := fun s => decide (s.contentBlocks.length = 2) && (normalizeMultimodalMessages smallSettings
      false [submitted "请看附件" (s.contentBlocks.map (·.block))]).isOk) (by decide +kernel)
  simp only [Bool.and_eq_true, decide_eq_true_eq] at hp
  obtain ⟨hlength, hok⟩ := hp
  cases hnormal : normalizeMultimodalMessages smallSettings false
      [submitted "请看附件" (s.contentBlocks.map (·.block))] with
  | error e =>
    rw [hnormal] at hok
    cases hok
  | ok result =>
    obtain ⟨before, blocks, after, -, hout, harrived⟩ :=
      (attachments_arrive [] false none hs smallSettings false "请看附件" [] []).1 _ _ hnormal
    refine ⟨s, before, blocks, after, result.2, hlength, ?_, harrived⟩
    rw [hnormal, ← hout]

end Frontend

end HyChat
