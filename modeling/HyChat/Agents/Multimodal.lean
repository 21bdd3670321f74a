import HyChat.Chat.Stream
import HyChat.Memory.Extraction

/-!
# Content blocks before a model call

`_normalize_multimodal_messages` rewrites the contents of a message history: PDF attachments become
their text, images become a notice when the model cannot read them, and what the frontend sends is
brought into the form the providers expect. All PDF attachments of a history share one budget.

A block is a dictionary of JSON values. `base64.b64decode` and `PdfReader` are parameters; so are
the limits.
-/

set_option autoImplicit false

namespace HyChat

open Lib Chat

namespace Multimodal

/-- A content block: its fields in the order in which they were set. -/
abbrev Block := List (String × Json)

/-! ## Dictionaries

The order of the keys is kept, since what is written is compared with what was there. `or` on
values is Python's: the first truthy one, or the last. -/

namespace Block

/-- `block.get(key)` -/
def get (block : Block) (key : String) : Json := (block.lookup key).getD .null

def has (block : Block) (key : String) : Bool := (block.lookup key).isSome

/-- `block.get(k₁) or block.get(k₂) or …` -/
def firstOf (block : Block) : List String → Json
  | [] => .null
  | [key] => block.get key
  | key :: keys => if truthy (block.get key) then block.get key else block.firstOf keys

end Block

/-- `candidate.strip()` when the value is a string that is not blank -/
def label? : Json → Option String
  | .str s => if (Py.strip s.toList).isEmpty then none else some (String.ofList (Py.strip s.toList))
  | _ => none

/-- `block_type in {…}`, which raises when the type cannot be hashed -/
def typeIn (block : Block) (types : List String) : Except String Bool :=
  match block.get "type" with
  | .arr _ => .error "unhashable type: 'list'"
  | .obj _ => .error "unhashable type: 'dict'"
  | .str s => .ok (types.contains s)
  | _ => .ok false

/-! ## What the frontend sends -/

/-- `filename` in `_normalize_frontend_multimodal_block` -/
def frontendFilename (block : Block) : Option Json :=
  match block.get "metadata" with
  | .obj metadata =>
      let candidate := Block.firstOf metadata ["filename", "name"]
      if (label? candidate).isSome then some candidate else none
  | _ => none

/-- The block with the fields of a Base64 source -/
def withSource (block : Block) (mimeType : String) : Block :=
  let sourced := setItem "mime_type" (.str mimeType) (setItem "source_type" (.str "base64") block)
  match frontendFilename block with
  | some filename =>
      if block.get "type" = .str "file" ∧ block.has "filename" = false then
        setItem "filename" filename sourced
      else sourced
  | none => sourced

/-- What the browser sends gets the fields of a source; another block is left. -/
def normalizeFrontendMultimodalBlock (block : Block) : Except String Block := do
  let known ← typeIn block ["image", "file"]
  if known && !block.has "source_type" && !block.has "base64" then
    match block.firstOf ["mime_type", "mimeType"], block.get "data" with
    | .str mimeType, .str _ => pure (withSource block mimeType)
    | _, _ => pure block
  else pure block

/-! ## Images

A block is looked at under all the spellings of a field that the providers use. -/

/-- `str.lower` on the letters of the prefixes it is used for -/
def lower (c : Char) : Char := if 'A' ≤ c && c ≤ 'Z' then Char.ofNat (c.toNat + 32) else c

/-- `value.strip().lower().startswith(prefix)` when the value is a string -/
def startsLower (start : String) : Json → Bool
  | .str s => start.toList.isPrefixOf ((Py.strip s.toList).map lower)
  | _ => false

def isImageMime (value : Json) : Bool := startsLower "image/" value

def isImageDataUrl (value : Json) : Bool := startsLower "data:image/" value

/-- The MIME type of the block, or else of its source -/
def mimeTypeOf (block : Block) : Json :=
  let mimeType := block.firstOf
    ["mime_type", "mimeType", "media_type", "mediaType", "content_type", "contentType"]
  match truthy mimeType, block.get "source" with
  | false, .obj source =>
      Block.firstOf source ["media_type", "mediaType", "mime_type", "mimeType"]
  | _, _ => mimeType

/-- The file nested in the block is an image. -/
def nestedImage (block : Block) : Bool :=
  match block.get "file" with
  | .obj file =>
      isImageMime (Block.firstOf file
        ["media_type", "mediaType", "mime_type", "mimeType", "content_type", "contentType"]) ||
        isImageDataUrl (Block.firstOf file ["file_data", "url"])
  | _ => false

def isImageContentBlock (block : Block) : Except String Bool := do
  let image ← typeIn block ["image", "image_url", "input_image"]
  if image then pure true
  else if block.get "type" = .str "file" ∧ (nestedImage block || isImageDataUrl (block.get "url")) then
    pure true
  else
    let media ← typeIn block ["file", "media"]
    pure (media && isImageMime (mimeTypeOf block))

/-- The name an image is called by -/
def imageLabel (block : Block) : String :=
  let direct := block.firstOf ["filename", "name"]
  let nested :=
    match truthy direct, block.get "file" with
    | false, .obj file => Block.firstOf file ["filename", "name"]
    | _, _ => direct
  let filename :=
    match truthy nested, block.get "metadata" with
    | false, .obj metadata => Block.firstOf metadata ["filename", "name"]
    | _, _ => nested
  (label? filename).getD "图片附件"

def textBlock (text : String) : Block := [("type", .str "text"), ("text", .str text)]

def unsupportedImageTextBlock (block : Block) : Block :=
  textBlock (s!"[用户上传了图片：{imageLabel block}。当前所选模型不支持读取图片内容。" ++
    "请不要推测图片内容，并提示用户改用文字描述。]")

/-! ## PDF attachments

The label of the limit in the message that refuses an upload is printed as `%g` prints it. -/

def attachmentFilename (block : Block) : String :=
  let candidate :=
    match truthy (block.get "filename"), block.get "metadata" with
    | false, .obj metadata => Block.firstOf metadata ["filename", "name"]
    | _, _ => block.get "filename"
  (label? candidate).getD "document.pdf"

/-- The block says of itself that it is a file and a PDF. -/
def isPdfFileBlock (block : Block) : Bool :=
  block.get "type" = .str "file" ∧
    block.firstOf ["mime_type", "mimeType"] = .str "application/pdf"

/-- The data of a PDF attachment, when it is a string -/
def pdfData (block : Block) : Option String :=
  match isPdfFileBlock block, block.firstOf ["data", "base64"] with
  | true, .str data => some data
  | _, _ => none

def base64DecodedSize (data : String) : Nat :=
  let groups := data.length / 4
  if data.length % 4 ≠ 0 then (groups + 1) * 3
  else groups * 3 - min (data.toList.reverse.takeWhile (· == '=')).length 2

/-- A page as the iteration over `reader.pages` yields it -/
inductive PdfPage
  | unreadable (error : String)
  /-- What `extract_text` answers; no text is the empty one. -/
  | page (extractText : Except String String)

/-- The limits, and the library functions -/
structure PdfSettings where
  textMaxChars : Nat
  maxPages : Nat
  maxAttachments : Nat
  maxUploadBytes : Nat
  totalMaxDecodedBytes : Nat
  b64decode : String → Option (List UInt8)
  pdfReader : List UInt8 → Except String (List PdfPage)

structure PdfBudget where
  decodedBytes : Nat
  extractedChars : Nat

variable (p : PdfSettings)

/-- `_pdf_history_byte_limit` -/
def PdfSettings.byteLimit : Nat := min p.maxUploadBytes p.totalMaxDecodedBytes

/-- `_upload_limit_label` -/
def uploadLimitLabel (limitBytes : Nat) : String :=
  if limitBytes < 1024 then s!"{limitBytes} 字节"
  else
    let limitMb := Py.formatG limitBytes (1024 * 1024)
    s!"{limitMb} 兆字节"

/-- The second loop of `_validate_pdf_history_blocks`, with the sizes so far -/
def estimatePdfBlocks : Nat → List Block → Except String Nat
  | total, [] => .ok total
  | total, block :: blocks =>
      match block.firstOf ["data", "base64"] with
      | .str data =>
          let size := base64DecodedSize data
          if size > p.byteLimit then
            .error s!"PDF 附件 {attachmentFilename block} 超过 {uploadLimitLabel p.byteLimit}限制"
          else estimatePdfBlocks (total + size) blocks
      | _ => estimatePdfBlocks total blocks

/-- The number of attachments, the size of each and the sum of the sizes are checked before any is
decoded; the sizes are estimates. -/
def validatePdfHistoryBlocks (blocks : List Block) : Except String Unit := do
  let pdfBlocks := blocks.filter isPdfFileBlock
  if pdfBlocks.length > p.maxAttachments then
    throw (s!"整段消息历史最多支持 {p.maxAttachments} 个 PDF 附件，" ++
      s!"当前包含 {pdfBlocks.length} 个")
  let total ← estimatePdfBlocks p 0 pdfBlocks
  if total > p.byteLimit then
    throw s!"整段消息历史中的 PDF 附件解码后总大小超过 {uploadLimitLabel p.byteLimit}限制"

/-- What the loop over the pages has collected, with the characters of the shared budget -/
structure Extraction where
  pageTexts : List (List Char)
  textTruncated : Bool
  pagesTruncated : Bool
  /-- How many pages have been extracted -/
  extractedPages : Nat
  extractedChars : Nat

/-- The text of a page under its heading -/
def pageSection (pageNumber : Nat) (text : List Char) : List Char :=
  s!"[第 {pageNumber} 页]\n".toList ++ text

def extractPages : Nat → List PdfPage → Extraction → Except String Extraction
  | _, [], acc => .ok acc
  | _, .unreadable e :: _, _ => .error e
  | pageNumber, .page extractText :: pages, acc =>
      if pageNumber > p.maxPages then .ok { acc with pagesTruncated := true }
      else
        match extractText with
        | .error e => .error e
        | .ok raw =>
            let extracted := { acc with extractedPages := acc.extractedPages + 1 }
            let text := Py.strip raw.toList
            if text.isEmpty then extractPages (pageNumber + 1) pages extracted
            else
              let section_ := pageSection pageNumber text
              let separatorSize : Nat := if acc.pageTexts.isEmpty then 0 else 2
              let remainingChars : Int :=
                (p.textMaxChars : Int) - acc.extractedChars - separatorSize
              if remainingChars ≤ 0 then .ok { extracted with textTruncated := true }
              else if (section_.length : Int) > remainingChars then
                .ok { extracted with
                  pageTexts := acc.pageTexts ++ [section_.take remainingChars.toNat]
                  extractedChars := p.textMaxChars
                  textTruncated := true }
              else extractPages (pageNumber + 1) pages { extracted with
                pageTexts := acc.pageTexts ++ [section_]
                extractedChars := acc.extractedChars + separatorSize + section_.length }

/-- What has been done with a PDF attachment; one that is not parsed has no pages and no
extraction. -/
structure PdfReport where
  filename : String
  pdfBytes : List UInt8
  parsed : Option (List PdfPage × Extraction)

/-- The page sections, joined by `"\n\n"` -/
def joinSections (sections : List (List Char)) : List Char := ['\n', '\n'].intercalate sections

/-- What an attachment says that is reached with the budget used up -/
def unparsedText (filename : String) : String :=
  s!"已上传 PDF 文件：{filename}\n\n" ++
    s!"整段消息历史的 PDF 文本提取总量已达到 {p.textMaxChars} 个字符限制，未继续解析此附件。"

/-- The text without a notice -/
def extractedText (filename : String) (pageTexts : List (List Char)) : String :=
  if pageTexts.isEmpty then
    s!"已上传 PDF 文件：{filename}\n\n该 PDF 没有可提取的文字，可能是扫描件或纯图片文档。"
  else
    s!"已上传 PDF 文件：{filename}\n\n以下是从 PDF 中提取的文本：\n\n" ++
      String.ofList (joinSections pageTexts)

def textNotice : String :=
  s!"\n\n[整段消息历史的 PDF 内容过长，已截取前 {p.textMaxChars} 个字符。]"

def pagesNotice : String := s!"\n\n[PDF 页数过多，仅提取前 {p.maxPages} 页。]"

/-- The text an attachment is replaced by -/
def PdfReport.text (r : PdfReport) : String :=
  match r.parsed with
  | none => unparsedText p r.filename
  | some (_, e) =>
      if e.textTruncated then extractedText r.filename e.pageTexts ++ textNotice p
      else if e.pagesTruncated then extractedText r.filename e.pageTexts ++ pagesNotice p
      else extractedText r.filename e.pageTexts

/-- `_pdf_file_block_to_text` for a PDF attachment whose data is a string -/
def pdfFileBlockToText (block : Block) (data : String) (budget : PdfBudget) :
    Except String (PdfReport × PdfBudget) :=
  let filename := attachmentFilename block
  match p.b64decode data with
  | none => .error s!"PDF 附件 {filename} 的 Base64 数据无效"
  | some pdfBytes =>
      if pdfBytes.length > p.byteLimit then
        .error s!"PDF 附件 {filename} 超过 {uploadLimitLabel p.byteLimit}限制"
      else
        let decodedBytes := budget.decodedBytes + pdfBytes.length
        if decodedBytes > p.byteLimit then
          .error s!"整段消息历史中的 PDF 附件解码后总大小超过 {uploadLimitLabel p.byteLimit}限制"
        else if budget.extractedChars ≥ p.textMaxChars then
          .ok (⟨filename, pdfBytes, none⟩, ⟨decodedBytes, budget.extractedChars⟩)
        else
          match p.pdfReader pdfBytes with
          | .error e => .error s!"PDF 附件 {filename} 无法解析：{e}"
          | .ok pages =>
              match extractPages p 1 pages ⟨[], false, false, 0, budget.extractedChars⟩ with
              | .error e => .error s!"PDF 附件 {filename} 无法解析：{e}"
              | .ok e => .ok (⟨filename, pdfBytes, some (pages, e)⟩, ⟨decodedBytes, e.extractedChars⟩)

/-! ## Messages -/

/-- The budget, and what has been done with the PDF attachments so far -/
structure PdfRun where
  budget : PdfBudget
  reports : List PdfReport

def PdfRun.start : PdfRun := ⟨⟨0, 0⟩, []⟩

variable (supportsImages : Bool)

/-- A block that is no PDF attachment with data -/
def normalizeOtherBlock (block : Block) : Except String Block := do
  let image ← if supportsImages then pure false else isImageContentBlock block
  if image then pure (unsupportedImageTextBlock block)
  else normalizeFrontendMultimodalBlock block

def normalizeContentBlock (block : Block) (run : PdfRun) : Except String (Block × PdfRun) :=
  match pdfData block with
  | some data =>
      match pdfFileBlockToText p block data run.budget with
      | .error e => .error e
      | .ok (report, budget) => .ok (textBlock (report.text p), ⟨budget, run.reports ++ [report]⟩)
  | none =>
      match normalizeOtherBlock supportsImages block with
      | .error e => .error e
      | .ok block => .ok (block, run)

/-- The items of a list; what is no dictionary stays. -/
def normalizeItems : List Json → PdfRun → Except String (List Json × PdfRun)
  | [], run => .ok ([], run)
  | .obj block :: items, run =>
      match normalizeContentBlock p supportsImages block run with
      | .error e => .error e
      | .ok (block, run) =>
          match normalizeItems items run with
          | .error e => .error e
          | .ok (items, run) => .ok (.obj block :: items, run)
  | item :: items, run =>
      match normalizeItems items run with
      | .error e => .error e
      | .ok (items, run) => .ok (item :: items, run)

/-- A string is left as it is; a list is normalised item by item. -/
def normalizeMultimodalContent (content : Json) (run : PdfRun) : Except String (Json × PdfRun) :=
  match content with
  | .obj block =>
      match normalizeContentBlock p supportsImages block run with
      | .error e => .error e
      | .ok (block, run) => .ok (.obj block, run)
  | .arr items =>
      match normalizeItems p supportsImages items run with
      | .error e => .error e
      | .ok (items, run) => .ok (.arr items, run)
  | content => .ok (content, run)

/-- A message: a dictionary, or an object with a content. -/
inductive Message
  | mapping (fields : List (String × Json))
  | base (type : String) (content : Json)

namespace Message

/-- `message.get("content", "")`, or the attribute -/
def content : Message → Json
  | .mapping fields => (fields.lookup "content").getD (.str "")
  | .base _ content => content

def withContent (content : Json) : Message → Message
  | .mapping fields => .mapping (setItem "content" content fields)
  | .base type _ => .base type content

end Message

theorem Message.content_withContent (content : Json) (message : Message) :
    (message.withContent content).content = content := by
  cases message with
  | mapping fields =>
    simp only [Message.withContent, Message.content]
    rw [lookup_setItem_self]
    rfl
  | base type content => rfl

/-- `_multimodal_content_blocks` -/
def contentBlocks : Json → List Block
  | .obj block => [block]
  | .arr items => items.filterMap fun
      | .obj block => some block
      | _ => none
  | _ => []

/-- The blocks of a history -/
def historyBlocks (messages : List Message) : List Block :=
  messages.flatMap fun message => contentBlocks message.content

def normalizeEach : List Message → PdfRun → Except String (List Message × PdfRun)
  | [], run => .ok ([], run)
  | message :: messages, run =>
      match normalizeMultimodalContent p supportsImages message.content run with
      | .error e => .error e
      | .ok (content, run) =>
          match normalizeEach messages run with
          | .error e => .error e
          | .ok (messages, run) => .ok (message.withContent content :: messages, run)

/-- `_normalize_multimodal_messages`, with what has been done with the PDF attachments -/
def normalizeMultimodalMessages (messages : List Message) : Except String (List Message × PdfRun) :=
  match validatePdfHistoryBlocks p (historyBlocks messages) with
  | .error e => .error e
  | .ok () => normalizeEach p supportsImages messages .start

end Multimodal

end HyChat
