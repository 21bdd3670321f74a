import HyChat.Lib.Lts
import HyChat.Frontend.ImageBlocks

/-!
# Attachments

`useFileUpload` keeps the attachments of the message being written. Files come in by drag and drop,
by paste or from the file dialog; `addFiles` checks them against the attachments of the render it
was made in, starts their conversion, and appends the blocks when all of them have been converted,
unless the upload generation has moved on.

The check and the appending are apart in time, and the check looks at the block that a file has
become, not at the file. **In every run each file is attached once, as far as every upload completes
apart from what is pending**: it does not bring the same file twice, no such file has been attached
since it was checked, and those that were there can still be told by their blocks
(`one_attachment_per_file`). What an upload brings from before a reset or a change of thread is not
there afterwards.

Resets and changes of the thread are counted from what happens to the hook: a call of `resetBlocks`,
and a render with another `resetKey` than the one before. The count (`epoch`) is kept beside the
hook, which neither reads nor writes it, so that the second half says something about the hook's own
generation and effects. A render changes nothing until its effects run; React runs them after the
render and always before the next one, and in between the old attachments are still there
(`threadPending`).

What becomes of a file is a function of the file and of what the browser reads from it; that the
browser reads it well is not claimed. The drag counter and the notices are left out.
-/

set_option autoImplicit false

namespace HyChat

open Lib Multimodal ImageBlocks

namespace Frontend

/-! ## Files -/

structure File where
  name : String
  type : String
  size : Nat

/-- `toLowerCase`, as far as the result is an ASCII letter: the Kelvin sign becomes one too. -/
def asciiLower (c : Char) : Char := if c = '\u212a' then 'k' else lower c

/-- `file.type.trim().toLowerCase()` -/
def File.mimeType (file : File) : List Char := (Js.trim file.type.toList).map asciiLower

def getFileExtension (filename : String) : List Char :=
  if '.' ∈ filename.toList then
    ('.' :: (filename.toList.reverse.takeWhile (· ≠ '.')).reverse).map asciiLower
  else []

def supportedImageTypes : List String := ["image/jpeg", "image/png", "image/gif", "image/webp"]

def imageFileExtensions : List String :=
  [".gif", ".heic", ".heif", ".jpeg", ".jpg", ".png", ".webp"]

def supportedDocumentTypes : List String := ["application/pdf"]

def supportedTextMimeTypes : List String :=
  ["application/javascript", "application/json", "application/sql", "application/typescript",
    "application/x-httpd-php", "application/x-javascript", "application/x-python-code",
    "application/x-sh", "application/xhtml+xml", "application/xml", "text/css", "text/csv",
    "text/html", "text/javascript", "text/jsx", "text/markdown", "text/plain", "text/tsx",
    "text/typescript", "text/x-c", "text/x-c++", "text/x-go", "text/x-java-source", "text/x-python",
    "text/x-ruby", "text/x-rust", "text/x-scala", "text/x-shellscript", "text/xml", "text/yaml"]

def codeExtensionLanguage : List (String × String) :=
  [(".bash", "bash"), (".c", "c"), (".cc", "cpp"), (".cpp", "cpp"), (".cs", "csharp"),
    (".css", "css"), (".cxx", "cpp"), (".go", "go"), (".h", "c"), (".hpp", "cpp"), (".htm", "html"),
    (".html", "html"), (".java", "java"), (".js", "javascript"), (".json", "json"),
    (".jsx", "jsx"), (".kt", "kotlin"), (".kts", "kotlin"), (".less", "less"), (".lua", "lua"),
    (".mjs", "javascript"), (".md", "markdown"), (".mdx", "markdown"), (".php", "php"),
    (".proto", "protobuf"), (".py", "python"), (".rb", "ruby"), (".rs", "rust"), (".sass", "sass"),
    (".scala", "scala"), (".scss", "scss"), (".sh", "bash"), (".sql", "sql"), (".swift", "swift"),
    (".toml", "toml"), (".ts", "typescript"), (".tsx", "tsx"), (".txt", "text"), (".vue", "vue"),
    (".xml", "xml"), (".yaml", "yaml"), (".yml", "yaml"), (".zsh", "bash")]

/-- The file is taken for an image, supported or not. -/
def looksLikeImage (file : File) : Bool :=
  "image/".toList.isPrefixOf file.mimeType ||
    imageFileExtensions.any (·.toList == getFileExtension file.name)

def isSupportedTextFile (file : File) : Bool :=
  if looksLikeImage file then false
  else "text/".toList.isPrefixOf file.mimeType ||
    supportedTextMimeTypes.any (·.toList == file.mimeType) ||
    codeExtensionLanguage.any (·.1.toList == getFileExtension file.name)

def isSupportedUploadFile (file : File) (allowImages : Bool) : Bool :=
  if looksLikeImage file then
    allowImages && supportedImageTypes.any (·.toList == file.mimeType)
  else supportedDocumentTypes.contains file.type || isSupportedTextFile file

def inferTextFileLanguage (file : File) : String :=
  ((codeExtensionLanguage.find? (·.1.toList == getFileExtension file.name)).map (·.2)).getD "text"

/-! ## What a file becomes -/

structure Blob where
  data : String
  type : String
  size : Nat

/-- What the browser reads from a file -/
structure Contents where
  /-- In Base64 -/
  data : String
  /-- The text, or its beginning when it is too long -/
  text : String
  truncated : Bool
  /-- The width and height of an image that can be loaded -/
  dimensions : Option (Nat × Nat)
  /-- The image as the canvas draws it -/
  blob : Option Blob

structure Base64Payload where
  data : String
  mimeType : String
  size : Nat
  optimized : Bool

def imageMaxEdgePx : Nat := 1600

def imageOptimizeMinBytes : Nat := 512 * 1024

def imageToBase64Payload (file : File) (contents : Contents) : Base64Payload :=
  let original := ⟨contents.data, file.type, file.size, false⟩
  if file.type = "image/gif" then original
  else
    match contents.dimensions with
    | none => original
    | some (width, height) =>
        let shouldResize := max width height > imageMaxEdgePx
        let shouldCompress := file.size ≥ imageOptimizeMinBytes
        if ¬ shouldResize ∧ ¬ shouldCompress then original
        else
          match contents.blob with
          | none => original
          | some blob =>
              if blob.size ≥ file.size then original
              else ⟨blob.data, if blob.type = "" then "image/jpeg" else blob.type, blob.size, true⟩

/-- The longest run of backticks; at least two -/
def longestFence : Nat → Nat → List Char → Nat
  | run, longest, [] => max run longest
  | run, longest, c :: rest =>
      if c = '\x60' then longestFence (run + 1) longest rest
      else longestFence 0 (max run longest) rest

def makeMarkdownCodeFence (code : String) : String :=
  String.ofList (List.replicate (longestFence 0 2 code.toList + 1) '\x60')

def textFileToContentBlock (file : File) (contents : Contents) : Block :=
  let language := inferTextFileLanguage file
  let fence := makeMarkdownCodeFence contents.text
  let truncationNotice :=
    if contents.truncated then "\n\n[文件内容过长，已截取前 60000 个字符。]" else ""
  [("type", .str "text"),
    ("text", .str (s!"已上传代码文件：{file.name}\n\n{fence}{language}\n{contents.text}\n" ++
      s!"{fence}{truncationNotice}")),
    ("metadata", .obj
      [("filename", .str file.name),
        ("mimeType", .str (if file.type = "" then "text/plain" else file.type)),
        ("language", .str language),
        ("size", .int file.size),
        ("truncated", .bool contents.truncated)])]

/-- A file that is not supported is rejected. -/
def fileToContentBlock (file : File) (allowImages : Bool) (contents : Contents) : Option Block :=
  if isSupportedUploadFile file allowImages = false then none
  else if isSupportedTextFile file then some (textFileToContentBlock file contents)
  else if file.type ∈ supportedImageTypes then
    let payload := imageToBase64Payload file contents
    some [("type", .str "image"),
      ("mimeType", .str payload.mimeType),
      ("data", .str payload.data),
      ("metadata", .obj
        [("name", .str file.name),
          ("originalMimeType", .str file.type),
          ("originalSize", .int file.size),
          ("size", .int payload.size),
          ("optimized", .bool payload.optimized)])]
  else
    some [("type", .str "file"),
      ("mimeType", .str "application/pdf"),
      ("data", .str contents.data),
      ("metadata", .obj [("filename", .str file.name)])]

/-! ## The check

A file is compared by the name, type and metadata that its block would have. -/

/-- `block.metadata?.key` -/
def metadata (block : Block) (key : String) : Json :=
  match block.get "metadata" with
  | .obj fields => Block.get fields key
  | _ => .null

def isTextContentBlock (block : Block) : Bool :=
  block.get "type" = .str "text" && match block.get "text" with
    | .str _ => true
    | _ => false

/-- The block is one that `isDuplicateFile` looks for. -/
def duplicates (file : File) (allowImages : Bool) (block : Block) : Bool :=
  if file.type = "application/pdf" then
    block.get "type" = .str "file" && block.get "mimeType" = .str "application/pdf" &&
      metadata block "filename" = .str file.name
  else if isSupportedTextFile file then
    isTextContentBlock block &&
      (metadata block "filename" = .str file.name || metadata block "name" = .str file.name)
  else if isSupportedUploadFile file allowImages then
    block.get "type" = .str "image" && metadata block "name" = .str file.name &&
      block.get "mimeType" = .str file.type
  else false

def isDuplicateFile (file : File) (blocks : List Block) (allowImages : Bool) : Bool :=
  blocks.any (duplicates file allowImages)

/-- `uniqueFiles` of `classifyFiles` -/
def uniqueFiles (files : List File) (blocks : List Block) (allowImages : Bool) : List File :=
  (files.filter (isSupportedUploadFile · allowImages)).filter
    fun file => !isDuplicateFile file blocks allowImages

/-! ## The hook

The state is what React keeps for the hook, with the closures of renders that are still in use. -/

/-- Where an attachment comes from, with the number of resets before its upload -/
structure Origin where
  file : File
  allowImages : Bool
  contents : Contents
  epoch : Nat

/-- An attachment; one that was there from the start comes from no file. -/
structure Attachment where
  block : Block
  origin : Option Origin

/-- What a render has closed over -/
structure Render where
  contentBlocks : List Attachment
  allowImages : Bool
  resetKey : Option String

/-- A call of `addFiles` that awaits the conversions -/
structure Upload where
  uniqueFiles : List File
  allowImages : Bool
  generation : Nat
  /-- The attachments the files have been checked against -/
  checked : List Attachment
  epoch : Nat

structure UploadState where
  contentBlocks : List Attachment
  uploadGeneration : Nat
  previousResetKey : Option String
  /-- The `allowImages` for which its effect has run -/
  previousAllowImages : Option Bool
  /-- The last one first -/
  renders : List Render
  /-- The effects of the last render have not run yet. -/
  effectsPending : Bool
  uploads : List Upload
  /-- How many resets and changes of the thread there have been, by the actions -/
  epoch : Nat

def UploadState.start (initialBlocks : List Block) (allowImages : Bool) (resetKey : Option String) :
    UploadState where
  contentBlocks := initialBlocks.map (⟨·, none⟩)
  uploadGeneration := 0
  previousResetKey := resetKey
  previousAllowImages := none
  renders := [⟨initialBlocks.map (⟨·, none⟩), allowImages, resetKey⟩]
  effectsPending := true
  uploads := []
  epoch := 0

inductive UploadAction
  /-- `addFiles` of the `r`-th last render is called. -/
  | addFiles (r : Nat) (files : List File)
  /-- The `i`-th upload has converted all its files. -/
  | converted (i : Nat) (contents : List Contents)
  /-- One of its conversions is rejected. -/
  | rejected (i : Nat)
  | removeBlock (idx : Nat)
  /-- A message with images is submitted to a model that cannot read them. -/
  | refuseImages
  /-- `resetBlocks`, as after a submit -/
  | resetBlocks
  | render (allowImages : Bool) (resetKey : Option String)
  /-- The effects of the last render run. -/
  | effects

/-- What the files of an upload have become -/
def Upload.convert (u : Upload) : List File → List Contents → Option (List Attachment)
  | [], [] => some []
  | file :: files, contents :: rest => do
      let block ← fileToContentBlock file u.allowImages contents
      let attachments ← u.convert files rest
      some (⟨block, some ⟨file, u.allowImages, contents, u.epoch⟩⟩ :: attachments)
  | _, _ => none

namespace UploadState

variable (s : UploadState)

def addFiles (render : Render) (files : List File) : UploadState :=
  let unique := uniqueFiles files (render.contentBlocks.map (·.block)) render.allowImages
  if unique = [] then s
  else
    { s with uploads := s.uploads ++
        [⟨unique, render.allowImages, s.uploadGeneration, render.contentBlocks, s.epoch⟩] }

def withoutImages : UploadState :=
  { s with contentBlocks := s.contentBlocks.filter (!isImageContentBlock ·.block) }

def reset : UploadState :=
  { s with
    uploadGeneration := s.uploadGeneration + 1
    contentBlocks := [] }

/-- `useEffect(…, [allowImages])` -/
def allowImagesEffect (render : Render) : UploadState :=
  if s.previousAllowImages = some render.allowImages then s
  else
    { s with
      uploadGeneration := s.uploadGeneration + 1
      previousAllowImages := some render.allowImages }

/-- `useEffect(…, [resetKey])` -/
def resetKeyEffect (render : Render) : UploadState :=
  if s.previousResetKey = render.resetKey then s
  else { s.reset with previousResetKey := render.resetKey }

/-- `useEffect(…, [allowImages, contentBlocks])` -/
def imagesEffect (render : Render) : UploadState :=
  if render.allowImages || !render.contentBlocks.any (isImageContentBlock ·.block) then s
  else s.withoutImages

/-- The effects of the last render, if they have not run yet -/
def flushEffects : UploadState :=
  if s.effectsPending then
    match s.renders.head? with
    | some render =>
        { ((s.allowImagesEffect render).resetKeyEffect render).imagesEffect render with
          effectsPending := false }
    | none => s
  else s

/-- What the hook does -/
def next : UploadAction → Option UploadState
  | .addFiles r files => (s.renders[r]?).map fun render => s.addFiles render files
  | .converted i contents => do
      let upload ← s.uploads[i]?
      let newBlocks ← upload.convert upload.uniqueFiles contents
      let s := { s with uploads := s.uploads.eraseIdx i }
      if upload.generation ≠ s.uploadGeneration then some s
      else some { s with contentBlocks := s.contentBlocks ++ newBlocks }
  | .rejected i => (s.uploads[i]?).map fun _ => { s with uploads := s.uploads.eraseIdx i }
  | .removeBlock idx => some { s with contentBlocks := s.contentBlocks.eraseIdx idx }
  | .refuseImages => some s.withoutImages
  | .resetBlocks => some s.reset
  | .render allowImages resetKey =>
      -- the effects of a render have run before the next one
      let s := s.flushEffects
      some { s with
        renders := ⟨s.contentBlocks, allowImages, resetKey⟩ :: s.renders
        effectsPending := true }
  | .effects => if s.effectsPending then some s.flushEffects else none

/-- The action resets the message or changes the thread. -/
def resets : UploadAction → Bool
  | .resetBlocks => true
  | .render _ resetKey => s.renders.head?.any fun render => render.resetKey != resetKey
  | _ => false

end UploadState

def useFileUpload : Lts UploadState UploadAction where
  step s a := (s.next a).map fun s' => { s' with epoch := s.epoch + if s.resets a then 1 else 0 }

/-! ## Attached once -/

/-- Two files with the same name and type -/
def SameFile (f g : File) : Prop := f.name = g.name ∧ f.type = g.type

instance (f g : File) : Decidable (SameFile f g) := inferInstanceAs (Decidable (_ ∧ _))

namespace Attachment

def file (a : Attachment) : Option File := a.origin.map (·.file)

/-- The attachments do not come from files with the same name and type. -/
def Apart (a b : Attachment) : Prop := ∀ f ∈ a.file, ∀ g ∈ b.file, ¬ SameFile f g

instance (a b : Attachment) : Decidable (a.Apart b) :=
  inferInstanceAs (Decidable (∀ f ∈ a.file, ∀ g ∈ b.file, ¬ SameFile f g))

/-- The attachment is what its file was converted to. -/
def Made (a : Attachment) : Prop :=
  ∀ o ∈ a.origin, fileToContentBlock o.file o.allowImages o.contents = some a.block

end Attachment

def UploadState.OnePerFile (s : UploadState) : Prop := s.contentBlocks.Pairwise Attachment.Apart

instance (s : UploadState) : Decidable s.OnePerFile :=
  inferInstanceAs (Decidable (s.contentBlocks.Pairwise Attachment.Apart))

/-- No attachment is from an upload that was started before a reset or a change of the thread. -/
def UploadState.NoneStale (s : UploadState) : Prop :=
  ∀ a ∈ s.contentBlocks, ∀ o ∈ a.origin, o.epoch = s.epoch

/-- The last render was for another thread, and its effects have not run yet. -/
def UploadState.threadPending (s : UploadState) : Bool :=
  s.effectsPending && match s.renders with
    | last :: before :: _ => before.resetKey != last.resetKey
    | _ => false

/-- The block of a file can be told by what `isDuplicateFile` compares. A PDF is not converted as
    a text, and an image is of a supported type, spelled as in the list, which its block has. -/
def Recognisable (file : File) (block : Block) : Prop :=
  if file.type = "application/pdf" then isSupportedTextFile file = false
  else isSupportedTextFile file = true ∨
    file.type ∈ supportedImageTypes ∧ block.get "mimeType" = .str file.type

/-- An upload brings no file twice, and none that is attached. -/
structure Upload.Apart (u : Upload) (contentBlocks : List Attachment) : Prop where
  /-- Its files differ in name or type. -/
  batch : u.uniqueFiles.Pairwise fun f g => ¬ SameFile f g
  /-- Nothing like them has been attached since they were checked. -/
  since : ∀ file ∈ u.uniqueFiles, ∀ a ∈ contentBlocks, a ∉ u.checked →
    ∀ f ∈ a.file, ¬ SameFile f file
  /-- What was there like them can be told by its block. -/
  recognisable : ∀ file ∈ u.uniqueFiles, ∀ a ∈ contentBlocks, a ∈ u.checked →
    ∀ f ∈ a.file, SameFile f file → Recognisable f a.block

/-- If the action completes an upload of the current generation, it does so apart from what is
    pending. -/
def CompletesApart (s : UploadState) (a : UploadAction) : Prop :=
  ∀ i contents u, a = .converted i contents → s.uploads[i]? = some u →
    u.generation = s.uploadGeneration → u.Apart s.contentBlocks

/-! ## A file that can be told by its block -/

theorem fileToContentBlock_text {file : File} {allowImages : Bool} {contents : Contents}
    {block : Block} (h : fileToContentBlock file allowImages contents = some block)
    (htext : isSupportedTextFile file = true) : block = textFileToContentBlock file contents := by
  simp only [fileToContentBlock, htext] at h
  split at h
  · exact absurd h (by simp)
  · simpa using h.symm

theorem SameFile.isSupportedTextFile {f file : File} (h : SameFile f file) :
    isSupportedTextFile f = isSupportedTextFile file := by
  obtain ⟨name, type, size⟩ := f
  obtain ⟨name', type', size'⟩ := file
  obtain ⟨rfl, rfl⟩ : name = name' ∧ type = type' := h
  rfl

/-- The check recognises a file of the same name and type by its block. -/
theorem duplicates_of_recognisable {f file : File} {allowed allowImages : Bool}
    {contents : Contents} {block : Block} (hsame : SameFile f file)
    (hmade : fileToContentBlock f allowed contents = some block)
    (hsupported : isSupportedUploadFile file allowImages = true)
    (h : Recognisable f block) : duplicates file allowImages block = true := by
  have htext := hsame.isSupportedTextFile
  unfold Recognisable at h
  unfold duplicates
  rw [← hsame.1, ← hsame.2, ← htext]
  split at h
  · rename_i hpdf
    -- what is neither a text nor an image becomes a file block
    simp only [fileToContentBlock, h, hpdf, supportedImageTypes] at hmade
    split at hmade
    · exact absurd hmade (by simp)
    · obtain rfl := Option.some.inj hmade
      simp [hpdf, Block.get, metadata, List.lookup_cons]
  · rename_i hpdf
    rcases h with h | ⟨himage, hkept⟩
    · rw [fileToContentBlock_text hmade h]
      simp [hpdf, h, textFileToContentBlock, isTextContentBlock, metadata, Block.get,
        List.lookup_cons]
    · cases ht : isSupportedTextFile f with
      | true =>
        rw [fileToContentBlock_text hmade ht]
        simp [hpdf, textFileToContentBlock, isTextContentBlock, metadata, Block.get,
          List.lookup_cons]
      | false =>
        simp only [fileToContentBlock, ht, himage] at hmade
        split at hmade
        · exact absurd hmade (by simp)
        · obtain rfl := Option.some.inj hmade
          simp [hpdf, hsupported, metadata, Block.get, List.lookup_cons] at hkept ⊢
          exact hkept

/-! ## What an upload brings -/

theorem Upload.made_of_convert {u : Upload} {files : List File} {contents : List Contents}
    {attachments : List Attachment} (h : u.convert files contents = some attachments) :
    attachments.map (·.file) = files.map some ∧
      ∀ a ∈ attachments, a.Made ∧ ∀ o ∈ a.origin, o.epoch = u.epoch := by
  induction files generalizing contents attachments with
  | nil =>
    cases contents with
    | nil =>
      obtain rfl : attachments = [] := by simpa [Upload.convert] using h.symm
      simp
    | cons c rest => simp [Upload.convert] at h
  | cons file files ih =>
    cases contents with
    | nil => simp [Upload.convert] at h
    | cons c rest =>
      simp only [Upload.convert, Option.bind_eq_bind, Option.bind_eq_some_iff,
        Option.some.injEq] at h
      obtain ⟨block, hblock, tail, htail, rfl⟩ := h
      obtain ⟨hfiles, hmade⟩ := ih htail
      refine ⟨by rw [List.map_cons, hfiles]; rfl, ?_⟩
      intro a ha
      rcases List.mem_cons.mp ha with rfl | ha
      · exact ⟨fun o ho => by cases ho; exact hblock, fun o ho => by cases ho; rfl⟩
      · exact hmade a ha

/-! ## The invariant -/

/-- An upload in flight: its files have been checked. -/
structure Upload.Sound (u : Upload) : Prop where
  made : ∀ a ∈ u.checked, a.Made
  supported : ∀ file ∈ u.uniqueFiles, isSupportedUploadFile file u.allowImages = true
  unique : ∀ file ∈ u.uniqueFiles, ∀ a ∈ u.checked, duplicates file u.allowImages a.block = false

structure UploadState.Sound (s : UploadState) : Prop where
  made : ∀ a ∈ s.contentBlocks, a.Made
  rendered : ∀ r ∈ s.renders, ∀ a ∈ r.contentBlocks, a.Made
  uploads : ∀ u ∈ s.uploads, u.Sound

/-- The hook keeps up with the resets and the changes of the thread. While the effects of a render
    for another thread are pending, it is the key that is still the old one; the generation then
    moves on when they run. -/
structure UploadState.Current (s : UploadState) : Prop where
  rendered : s.renders ≠ []
  key : ∀ render ∈ s.renders.head?,
    s.previousResetKey ≠ render.resetKey ↔ s.threadPending = true
  generation : ∀ u ∈ s.uploads, u.generation ≤ s.uploadGeneration
  uploads : s.threadPending = false → ∀ u ∈ s.uploads, u.generation = s.uploadGeneration →
    u.epoch = s.epoch
  noneStale : s.threadPending = false → s.NoneStale

/-- What most actions do: attachments go, and uploads end or are outdated. -/
structure UploadState.Shrinks (s s' : UploadState) : Prop where
  contentBlocks : s'.contentBlocks.Sublist s.contentBlocks
  renders : s'.renders = s.renders
  uploads : s'.uploads ⊆ s.uploads
  generation : s.uploadGeneration ≤ s'.uploadGeneration

namespace UploadState

variable {s s' s'' : UploadState}

theorem Shrinks.refl : s.Shrinks s :=
  ⟨List.Sublist.refl _, rfl, List.Subset.refl _, Nat.le_refl _⟩

theorem Shrinks.trans (h : s.Shrinks s') (h' : s'.Shrinks s'') : s.Shrinks s'' :=
  ⟨h'.contentBlocks.trans h.contentBlocks, h'.renders.trans h.renders,
    List.Subset.trans h'.uploads h.uploads, h.generation.trans h'.generation⟩

theorem shrinks_withoutImages : s.Shrinks s.withoutImages :=
  ⟨List.filter_sublist, rfl, List.Subset.refl _, Nat.le_refl _⟩

theorem shrinks_reset : s.Shrinks s.reset :=
  ⟨List.nil_sublist _, rfl, List.Subset.refl _, Nat.le_succ _⟩

theorem shrinks_allowImagesEffect (render : Render) : s.Shrinks (s.allowImagesEffect render) := by
  unfold allowImagesEffect
  split
  · exact .refl
  · exact ⟨List.Sublist.refl _, rfl, List.Subset.refl _, Nat.le_succ _⟩

theorem shrinks_resetKeyEffect (render : Render) : s.Shrinks (s.resetKeyEffect render) := by
  unfold resetKeyEffect
  split
  · exact .refl
  · exact ⟨List.nil_sublist _, rfl, List.Subset.refl _, Nat.le_succ _⟩

theorem shrinks_imagesEffect (render : Render) : s.Shrinks (s.imagesEffect render) := by
  unfold imagesEffect
  split
  · exact .refl
  · exact shrinks_withoutImages

theorem shrinks_flushEffects : s.Shrinks s.flushEffects := by
  unfold flushEffects
  split
  · cases s.renders.head? with
    | none => exact .refl
    | some render =>
      have h := ((shrinks_allowImagesEffect render).trans (shrinks_resetKeyEffect render)).trans
        (shrinks_imagesEffect (s := (s.allowImagesEffect render).resetKeyEffect render) render)
      exact ⟨h.contentBlocks, h.renders, h.uploads, h.generation⟩
  · exact .refl

end UploadState

/-- What the hook can have done -/
inductive UploadStep (s : UploadState) (a : UploadAction) : UploadState → Prop
  | addFiles (render : Render) (files : List File) (hrender : render ∈ s.renders)
      (ha : ∀ i contents, a ≠ .converted i contents) :
      UploadStep s a (s.addFiles render files)
  | attached (i : Nat) (contents : List Contents) (u : Upload) (newBlocks : List Attachment)
      (ha : a = .converted i contents) (hu : s.uploads[i]? = some u)
      (hgeneration : u.generation = s.uploadGeneration)
      (hconvert : u.convert u.uniqueFiles contents = some newBlocks) :
      UploadStep s a { s with
        uploads := s.uploads.eraseIdx i
        contentBlocks := s.contentBlocks ++ newBlocks }
  | render (allowImages : Bool) (resetKey : Option String)
      (ha : ∀ i contents, a ≠ .converted i contents) :
      UploadStep s a { s.flushEffects with
        renders := ⟨s.flushEffects.contentBlocks, allowImages, resetKey⟩ :: s.flushEffects.renders
        effectsPending := true }
  | shrinks (s' : UploadState) (h : s.Shrinks s')
      (ha : ∀ i contents u, a = .converted i contents → s.uploads[i]? = some u →
        u.generation ≠ s.uploadGeneration) : UploadStep s a s'

theorem uploadStep_of_next {s s' : UploadState} {a : UploadAction} (h : s.next a = some s') :
    UploadStep s a s' := by
  cases a with
  | addFiles r files =>
    obtain ⟨render, hr, rfl⟩ := Option.map_eq_some_iff.mp h
    exact .addFiles render files (List.mem_of_getElem? hr) (by simp)
  | converted i contents =>
    simp only [UploadState.next, Option.bind_eq_bind, Option.bind_eq_some_iff] at h
    obtain ⟨u, hu, newBlocks, hconvert, h⟩ := h
    split at h
    · rename_i hgeneration
      obtain rfl := Option.some.inj h
      refine .shrinks _ ⟨List.Sublist.refl _, rfl, (List.eraseIdx_sublist ..).subset,
        Nat.le_refl _⟩ ?_
      rintro j _ v ⟨⟩ hv
      rw [hu, Option.some.injEq] at hv
      exact hv ▸ hgeneration
    · rename_i hgeneration
      obtain rfl := Option.some.inj h
      exact .attached i contents u newBlocks rfl hu (not_not.mp hgeneration) hconvert
  | rejected i =>
    obtain ⟨u, -, rfl⟩ := Option.map_eq_some_iff.mp h
    exact .shrinks _ ⟨List.Sublist.refl _, rfl, (List.eraseIdx_sublist ..).subset,
      Nat.le_refl _⟩ (by simp)
  | removeBlock idx =>
    obtain rfl := Option.some.inj h
    exact .shrinks _ ⟨List.eraseIdx_sublist .., rfl, List.Subset.refl _, Nat.le_refl _⟩ (by simp)
  | refuseImages =>
    obtain rfl := Option.some.inj h
    exact .shrinks _ UploadState.shrinks_withoutImages (by simp)
  | resetBlocks =>
    obtain rfl := Option.some.inj h
    exact .shrinks _ UploadState.shrinks_reset (by simp)
  | render allowImages resetKey =>
    obtain rfl := Option.some.inj h
    exact .render allowImages resetKey (by simp)
  | effects =>
    simp only [UploadState.next] at h
    split at h
    · obtain rfl := Option.some.inj h
      exact .shrinks _ UploadState.shrinks_flushEffects (by simp)
    · exact absurd h (by simp)

theorem next_of_step {s s' : UploadState} {a : UploadAction} (h : useFileUpload.step s a = some s') :
    ∃ t, s.next a = some t ∧ s' = { t with epoch := s.epoch + if s.resets a then 1 else 0 } := by
  obtain ⟨t, ht, rfl⟩ := Option.map_eq_some_iff.mp h
  exact ⟨t, ht, rfl⟩

/-! ## Every action keeps the invariant

One lemma for each thing the hook can have done. -/

theorem UploadState.Sound.shrinks {s s' : UploadState} (h : s.Sound) (hs : s.Shrinks s') :
    s'.Sound where
  made a ha := h.made a (hs.contentBlocks.subset ha)
  rendered r hr := h.rendered r (hs.renders ▸ hr)
  uploads u hu := h.uploads u (hs.uploads hu)

theorem UploadState.Sound.addFiles {s : UploadState} (h : s.Sound) {render : Render}
    (hrender : render ∈ s.renders) (files : List File) : (s.addFiles render files).Sound := by
  unfold UploadState.addFiles
  dsimp only
  split
  · exact h
  · refine ⟨h.made, h.rendered, ?_⟩
    intro u hu
    rcases List.mem_append.mp hu with hu | hu
    · exact h.uploads u hu
    · obtain rfl := List.mem_singleton.mp hu
      refine ⟨h.rendered render hrender, ?_, ?_⟩
      · intro file hfile
        exact (List.mem_filter.mp (List.mem_filter.mp hfile).1).2
      · intro file hfile a ha
        have hnot := (List.mem_filter.mp hfile).2
        simp only [isDuplicateFile, Bool.not_eq_true', List.any_eq_false, List.mem_map] at hnot
        exact Bool.eq_false_iff.mpr (hnot a.block ⟨a, ha, rfl⟩)

theorem UploadState.Sound.attached {s : UploadState} (h : s.Sound) {i : Nat}
    {contents : List Contents} {u : Upload} {newBlocks : List Attachment}
    (hconvert : u.convert u.uniqueFiles contents = some newBlocks) :
    UploadState.Sound { s with
      uploads := s.uploads.eraseIdx i
      contentBlocks := s.contentBlocks ++ newBlocks } := by
  have hmade := (Upload.made_of_convert hconvert).2
  refine ⟨?_, h.rendered, ?_⟩
  · intro a ha
    rcases List.mem_append.mp ha with ha | ha
    · exact h.made a ha
    · exact (hmade a ha).1
  · intro v hv
    exact h.uploads v ((List.eraseIdx_sublist ..).subset hv)

theorem UploadState.Sound.next {s s' : UploadState} {a : UploadAction} (h : s.Sound)
    (hs : s.next a = some s') : s'.Sound := by
  cases uploadStep_of_next hs with
  | addFiles render files hrender _ => exact h.addFiles hrender files
  | attached i contents u newBlocks _ hu hgeneration hconvert => exact h.attached hconvert
  | render allowImages resetKey _ =>
    have hflushed := h.shrinks UploadState.shrinks_flushEffects
    refine ⟨hflushed.made, ?_, hflushed.uploads⟩
    intro r hr
    rcases List.mem_cons.mp hr with rfl | hr
    · exact hflushed.made
    · exact hflushed.rendered r hr
  | shrinks _ hshrinks _ => exact h.shrinks hshrinks

theorem UploadState.Sound.step {s s' : UploadState} {a : UploadAction} (h : s.Sound)
    (hs : useFileUpload.step s a = some s') : s'.Sound := by
  obtain ⟨t, ht, rfl⟩ := next_of_step hs
  have hnext := h.next ht
  exact ⟨hnext.made, hnext.rendered, hnext.uploads⟩

theorem UploadState.sound_start (initialBlocks : List Block) (allowImages : Bool)
    (resetKey : Option String) : (UploadState.start initialBlocks allowImages resetKey).Sound := by
  have hmade : ∀ a ∈ initialBlocks.map fun block => (⟨block, none⟩ : Attachment), a.Made := by
    intro a ha o ho
    obtain ⟨block, -, rfl⟩ := List.mem_map.mp ha
    exact absurd ho (by simp)
  refine ⟨hmade, ?_, by simp [UploadState.start]⟩
  intro r hr
  obtain rfl : r = _ := List.mem_singleton.mp hr
  exact hmade

/-! ## Resets and changes of the thread -/

theorem UploadState.current_start (initialBlocks : List Block) (allowImages : Bool)
    (resetKey : Option String) : (UploadState.start initialBlocks allowImages resetKey).Current := by
  refine ⟨by simp [UploadState.start], ?_, by simp [UploadState.start], by simp [UploadState.start], ?_⟩
  · intro render hrender
    cases hrender
    simp [UploadState.start, UploadState.threadPending]
  · intro _ a ha o ho
    obtain ⟨block, -, rfl⟩ := List.mem_map.mp ha
    exact absurd ho (by simp)

/-- Once the effects have run, the hook has the key of the last render; where that is another one
    than it had, nothing is attached and every upload is outdated. -/
structure UploadState.Settled (s s' : UploadState) : Prop where
  effects : s'.effectsPending = false
  key : ∀ render ∈ s.renders.head?, s'.previousResetKey = render.resetKey
  outdated : ∀ render ∈ s.renders.head?, s.previousResetKey ≠ render.resetKey →
    s'.contentBlocks = [] ∧ s.uploadGeneration < s'.uploadGeneration

/-- Only the effect on the key looks at the key. -/
theorem UploadState.previousResetKey_allowImagesEffect (s : UploadState) (render : Render) :
    (s.allowImagesEffect render).previousResetKey = s.previousResetKey := by
  unfold allowImagesEffect
  split
  · rfl
  · rfl

theorem UploadState.previousResetKey_imagesEffect (s : UploadState) (render : Render) :
    (s.imagesEffect render).previousResetKey = s.previousResetKey := by
  unfold imagesEffect
  split
  · rfl
  · rfl

theorem UploadState.previousResetKey_resetKeyEffect (s : UploadState) (render : Render) :
    (s.resetKeyEffect render).previousResetKey = render.resetKey := by
  unfold resetKeyEffect
  split
  · assumption
  · rfl

theorem UploadState.settled_flushEffects {s : UploadState} (h : s.Current) :
    s.Settled s.flushEffects := by
  cases hpending : s.effectsPending with
  -- nothing to flush: the key of the last render has been seen already
  | false =>
    have hsame : s.flushEffects = s := by
      unfold flushEffects
      rw [if_neg (by rw [hpending]; exact Bool.false_ne_true)]
    have hthread : s.threadPending = false := by
      unfold threadPending
      rw [hpending]
      rfl
    have hkey : ∀ render ∈ s.renders.head?, s.previousResetKey = render.resetKey := by
      intro render hr
      by_contra hne
      rw [(h.key render hr).mp hne] at hthread
      cases hthread
    rw [hsame]
    exact ⟨hpending, hkey, fun render hr hne => absurd (hkey render hr) hne⟩
  -- the effects of the last render run, and the one on the key decides
  | true =>
    cases hr : s.renders.head? with
    | none => exact absurd (List.head?_eq_none_iff.mp hr) h.rendered
    | some render =>
      have hflush : s.flushEffects =
          { ((s.allowImagesEffect render).resetKeyEffect render).imagesEffect render with
            effectsPending := false } := by
        unfold flushEffects
        rw [if_pos hpending, hr]
      rw [hflush]
      refine ⟨rfl, fun r hr' => ?_, fun r hr' hne => ?_⟩
      · rw [hr] at hr'
        cases hr'
        exact (previousResetKey_imagesEffect _ render).trans
          (previousResetKey_resetKeyEffect _ render)
      · rw [hr] at hr'
        cases hr'
        have hreset : (s.allowImagesEffect render).resetKeyEffect render =
            { (s.allowImagesEffect render).reset with previousResetKey := render.resetKey } := by
          unfold resetKeyEffect
          rw [if_neg (by rw [previousResetKey_allowImagesEffect]; exact hne)]
        rw [hreset]
        refine ⟨?_, ?_⟩
        · exact List.sublist_nil.mp (shrinks_imagesEffect render).contentBlocks
        · have hbefore := (shrinks_allowImagesEffect (s := s) render).generation
          exact Nat.lt_of_lt_of_le (Nat.lt_succ_of_le hbefore)
            (shrinks_imagesEffect (s := { (s.allowImagesEffect render).reset with
              previousResetKey := render.resetKey }) render).generation

/-- A state that differs from a current one in attachments and uploads that are gone, and in uploads
    that are outdated. -/
theorem UploadState.Current.shrinks {s s' : UploadState} (h : s.Current) (hs : s.Shrinks s')
    (hkey : s'.previousResetKey = s.previousResetKey) (heffects : s'.effectsPending = s.effectsPending)
    (hepoch : s'.epoch = s.epoch) : s'.Current := by
  have hthread : s'.threadPending = s.threadPending := by
    unfold threadPending
    rw [heffects, hs.renders]
  refine ⟨by rw [hs.renders]; exact h.rendered, ?_, ?_, ?_, ?_⟩
  · intro render hr
    rw [hs.renders] at hr
    rw [hkey, hthread]
    exact h.key render hr
  · exact fun u hu => (h.generation u (hs.uploads hu)).trans hs.generation
  · intro hno u hu hgeneration
    rw [hepoch]
    refine h.uploads (hthread ▸ hno) u (hs.uploads hu) ?_
    exact Nat.le_antisymm (h.generation u (hs.uploads hu)) (hgeneration ▸ hs.generation)
  · intro hno a ha o ho
    rw [hepoch]
    exact h.noneStale (hthread ▸ hno) a (hs.contentBlocks.subset ha) o ho

theorem UploadState.epoch_flushEffects (s : UploadState) : s.flushEffects.epoch = s.epoch := by
  unfold UploadState.flushEffects allowImagesEffect resetKeyEffect imagesEffect
  split
  · split
    · simp only
      split
      all_goals (split <;> split <;> rfl)
    · rfl
  · rfl

theorem UploadState.epoch_addFiles (s : UploadState) (render : Render) (files : List File) :
    (s.addFiles render files).epoch = s.epoch := by
  unfold UploadState.addFiles
  dsimp only
  split
  · rfl
  · rfl

/-- An action that neither resets nor changes the thread leaves the count. -/
theorem UploadState.Current.withEpoch {s : UploadState} (h : s.Current) {epoch : Nat}
    (hepoch : s.epoch = epoch) : UploadState.Current { s with epoch := epoch } := by
  subst hepoch
  exact h

/-- **The effects** bring the hook up to date. -/
theorem UploadState.Current.flushEffects {s : UploadState} (h : s.Current) :
    s.flushEffects.Current ∧ s.flushEffects.threadPending = false := by
  have hsettled := settled_flushEffects h
  have hshrinks : s.Shrinks s.flushEffects := shrinks_flushEffects
  have hepoch := epoch_flushEffects s
  have hthread : s.flushEffects.threadPending = false := by
    unfold threadPending
    rw [hsettled.effects]
    rfl
  obtain ⟨render, rest, hrenders⟩ := List.exists_cons_of_ne_nil h.rendered
  have hhead : render ∈ s.renders.head? := by
    rw [hrenders]
    rfl
  -- a key that has been seen already has no effects pending on it
  have hno : s.previousResetKey = render.resetKey → s.threadPending = false := by
    intro hkey
    rw [Bool.eq_false_iff]
    exact fun hp => (h.key render hhead).mpr hp hkey
  refine ⟨⟨by rw [hshrinks.renders]; exact h.rendered, ?_, ?_, ?_, ?_⟩, hthread⟩
  · intro r hr
    rw [hshrinks.renders] at hr
    rw [hthread, hsettled.key r hr]
    simp
  · exact fun u hu => (h.generation u (hshrinks.uploads hu)).trans hshrinks.generation
  · intro _ u hu hgeneration
    have hle := h.generation u (hshrinks.uploads hu)
    by_cases hkey : s.previousResetKey = render.resetKey
    · rw [hepoch]
      exact h.uploads (hno hkey) u (hshrinks.uploads hu) (Nat.le_antisymm hle (hgeneration ▸ hshrinks.generation))
    · have hlt := (hsettled.outdated render hhead hkey).2
      rw [hgeneration] at hle
      exact absurd hle (Nat.not_le.mpr hlt)
  · intro _ a ha o ho
    by_cases hkey : s.previousResetKey = render.resetKey
    · rw [hepoch]
      exact h.noneStale (hno hkey) a (hshrinks.contentBlocks.subset ha) o ho
    · rw [(hsettled.outdated render hhead hkey).1] at ha
      exact absurd ha (by simp)

theorem UploadState.Current.addFiles {s : UploadState} (h : s.Current) (render : Render)
    (files : List File) : (s.addFiles render files).Current := by
  unfold UploadState.addFiles
  dsimp only
  split
  · exact h
  · refine ⟨h.rendered, h.key, ?_, ?_, h.noneStale⟩
    · intro u hu
      rcases List.mem_append.mp hu with hu | hu
      · exact h.generation u hu
      · rw [List.mem_singleton.mp hu]
    · intro hno u hu hgeneration
      rcases List.mem_append.mp hu with hu | hu
      · exact h.uploads hno u hu hgeneration
      · rw [List.mem_singleton.mp hu]

theorem UploadState.Current.attached {s : UploadState} (h : s.Current) {i : Nat}
    {contents : List Contents} {u : Upload} {newBlocks : List Attachment}
    (hu : s.uploads[i]? = some u) (hgeneration : u.generation = s.uploadGeneration)
    (hconvert : u.convert u.uniqueFiles contents = some newBlocks) :
    UploadState.Current { s with
      uploads := s.uploads.eraseIdx i
      contentBlocks := s.contentBlocks ++ newBlocks } := by
  have hsub : ∀ v ∈ s.uploads.eraseIdx i, v ∈ s.uploads := fun v hv =>
    (List.eraseIdx_sublist ..).subset hv
  refine ⟨h.rendered, h.key, fun v hv => h.generation v (hsub v hv),
    fun hno v hv => h.uploads hno v (hsub v hv), ?_⟩
  intro hno a ha o ho
  rcases List.mem_append.mp ha with ha | ha
  · exact h.noneStale hno a ha o ho
  · have hepoch := h.uploads hno u (List.mem_of_getElem? hu) hgeneration
    exact (((Upload.made_of_convert hconvert).2 a ha).2 o ho).trans hepoch

/-- Another render, when the effects of the one before have run -/
theorem UploadState.Current.render {s : UploadState} (h : s.Current) (hno : s.threadPending = false)
    {epoch : Nat} (hepoch : epoch = s.epoch) (allowImages : Bool) (resetKey : Option String) :
    UploadState.Current { s with
      renders := ⟨s.contentBlocks, allowImages, resetKey⟩ :: s.renders
      effectsPending := true
      epoch := epoch + if s.resets (.render allowImages resetKey) then 1 else 0 } := by
  obtain ⟨last, rest, hrenders⟩ := List.exists_cons_of_ne_nil h.rendered
  have hkey : s.previousResetKey = last.resetKey := by
    by_contra hne
    rw [(h.key last (by rw [hrenders]; rfl)).mp hne] at hno
    cases hno
  by_cases hsame : last.resetKey = resetKey
  · -- the thread is the same
    have hresets : s.resets (.render allowImages resetKey) = false := by
      simp [resets, hrenders, hsame]
    rw [hresets, hepoch]
    refine ⟨by simp, ?_, h.generation, fun _ => h.uploads hno, fun _ => h.noneStale hno⟩
    intro render hr
    cases hr
    simp [threadPending, hrenders, hkey, hsame]
  · have hpending (epoch : Nat) : UploadState.threadPending { s with
        renders := ⟨s.contentBlocks, allowImages, resetKey⟩ :: s.renders
        effectsPending := true
        epoch := epoch } = true := by
      simp [threadPending, hrenders, hsame]
    refine ⟨by simp, ?_, h.generation, fun hf => ?_, fun hf => ?_⟩
    · intro render hr
      cases hr
      rw [hpending, hkey]
      exact iff_of_true hsame rfl
    · rw [hpending] at hf
      cases hf
    · rw [hpending] at hf
      cases hf

/-- **Every action**: what the hook does keeps up with what the action is. -/
theorem UploadState.Current.step {s s' : UploadState} {a : UploadAction} (h : s.Current)
    (hs : useFileUpload.step s a = some s') : s'.Current := by
  obtain ⟨t, ht, rfl⟩ := next_of_step hs
  cases a with
  | addFiles r files =>
    obtain ⟨render, -, rfl⟩ := Option.map_eq_some_iff.mp ht
    exact (h.addFiles render files).withEpoch (UploadState.epoch_addFiles s render files)
  | converted i contents =>
    simp only [UploadState.next, Option.bind_eq_bind, Option.bind_eq_some_iff] at ht
    obtain ⟨u, hu, newBlocks, hconvert, ht⟩ := ht
    split at ht
    · obtain rfl := Option.some.inj ht
      exact h.shrinks ⟨List.Sublist.refl _, rfl, (List.eraseIdx_sublist ..).subset,
        Nat.le_refl _⟩ rfl rfl rfl
    · rename_i hgeneration
      obtain rfl := Option.some.inj ht
      exact h.attached hu (not_not.mp hgeneration) hconvert
  | rejected i =>
    obtain ⟨u, -, rfl⟩ := Option.map_eq_some_iff.mp ht
    exact h.shrinks ⟨List.Sublist.refl _, rfl, (List.eraseIdx_sublist ..).subset,
      Nat.le_refl _⟩ rfl rfl rfl
  | removeBlock idx =>
    obtain rfl := Option.some.inj ht
    exact h.shrinks ⟨List.eraseIdx_sublist .., rfl, List.Subset.refl _, Nat.le_refl _⟩ rfl rfl rfl
  | refuseImages =>
    obtain rfl := Option.some.inj ht
    exact h.shrinks UploadState.shrinks_withoutImages rfl rfl rfl
  | resetBlocks =>
    obtain rfl := Option.some.inj ht
    refine ⟨h.rendered, h.key, fun u hu => (h.generation u hu).trans (Nat.le_succ _), ?_, ?_⟩
    · -- every upload is of an older generation now
      intro _ u hu hgeneration
      have hle := h.generation u hu
      rw [hgeneration] at hle
      exact absurd hle (Nat.not_succ_le_self _)
    · exact fun _ a ha => absurd ha List.not_mem_nil
  | render allowImages resetKey =>
    obtain rfl := Option.some.inj ht
    obtain ⟨hflushed, hno⟩ := h.flushEffects
    have hresets : s.flushEffects.resets (.render allowImages resetKey) =
        s.resets (.render allowImages resetKey) := by
      unfold UploadState.resets
      rw [UploadState.shrinks_flushEffects.renders]
    rw [← hresets]
    exact hflushed.render hno (UploadState.epoch_flushEffects s).symm allowImages resetKey
  | effects =>
    simp only [UploadState.next] at ht
    split at ht
    · obtain rfl := Option.some.inj ht
      exact h.flushEffects.1.withEpoch (UploadState.epoch_flushEffects s)
    · exact absurd ht (by simp)

/-! ## Each file is attached once -/

theorem onePerFile_start (initialBlocks : List Block) (allowImages : Bool)
    (resetKey : Option String) : (UploadState.start initialBlocks allowImages resetKey).OnePerFile := by
  refine List.pairwise_of_forall_mem_list ?_
  intro a ha b _ f hf
  obtain ⟨block, -, rfl⟩ := List.mem_map.mp ha
  exact absurd hf (by simp [Attachment.file])

theorem pairwise_apart_iff {attachments : List Attachment} {files : List File}
    (h : attachments.map (·.file) = files.map some) :
    attachments.Pairwise Attachment.Apart ↔ files.Pairwise fun f g => ¬ SameFile f g := by
  have hmap : attachments.Pairwise Attachment.Apart ↔
      (attachments.map (·.file)).Pairwise fun f g => ∀ x ∈ f, ∀ y ∈ g, ¬ SameFile x y := by
    rw [List.pairwise_map]
    rfl
  rw [hmap, h, List.pairwise_map]
  simp

theorem forall_apart_iff {attachments : List Attachment} {files : List File}
    (h : attachments.map (·.file) = files.map some) (a : Attachment) :
    (∀ b ∈ attachments, a.Apart b) ↔ ∀ file ∈ files, ∀ f ∈ a.file, ¬ SameFile f file := by
  have hmap : (∀ b ∈ attachments, a.Apart b) ↔
      ∀ o ∈ attachments.map (·.file), ∀ f ∈ a.file, ∀ g ∈ o, ¬ SameFile f g := by
    simp [Attachment.Apart]
  rw [hmap, h]
  simp

/-- What is attached stays without duplicates exactly when the upload is apart from it: a file like
    one that can be told by its block would not have passed the check. -/
theorem attach_iff {s : UploadState} {u : Upload} {contents : List Contents}
    {newBlocks : List Attachment} (h : s.OnePerFile) (hs : s.Sound) (hu : u.Sound)
    (hconvert : u.convert u.uniqueFiles contents = some newBlocks) :
    (s.contentBlocks ++ newBlocks).Pairwise Attachment.Apart ↔ u.Apart s.contentBlocks := by
  have hfiles := (Upload.made_of_convert hconvert).1
  rw [List.pairwise_append, pairwise_apart_iff hfiles]
  simp only [forall_apart_iff hfiles]
  constructor
  · rintro ⟨-, hbatch, hcross⟩
    refine ⟨hbatch, fun file hfile a ha _ f hf => hcross a ha file hfile f hf, ?_⟩
    intro file hfile a ha _ f hf hsame
    exact absurd hsame (hcross a ha file hfile f hf)
  · rintro ⟨hbatch, hsince, hrecognisable⟩
    refine ⟨h, hbatch, ?_⟩
    intro a ha file hfile f hf hsame
    by_cases hchecked : a ∈ u.checked
    · obtain ⟨o, ho, rfl⟩ := Option.map_eq_some_iff.mp hf
      have hdup := duplicates_of_recognisable hsame (hs.made a ha o ho)
        (hu.supported file hfile) (hrecognisable file hfile a ha hchecked _ hf hsame)
      rw [hu.unique file hfile a hchecked] at hdup
      exact absurd hdup (by simp)
    · exact hsince file hfile a ha hchecked f hf hsame

theorem onePerFile_step_iff {s s' : UploadState} {a : UploadAction} (h : s.OnePerFile)
    (hs : s.Sound) (hstep : useFileUpload.step s a = some s') :
    s'.OnePerFile ↔ CompletesApart s a := by
  obtain ⟨t, ht, rfl⟩ := next_of_step hstep
  cases uploadStep_of_next ht with
  | addFiles render files _ ha =>
    have hkept : (s.addFiles render files).contentBlocks = s.contentBlocks := by
      unfold UploadState.addFiles
      dsimp only
      split <;> rfl
    refine iff_of_true ?_ fun i contents _ hi => absurd hi (ha i contents)
    rw [UploadState.OnePerFile, hkept]
    exact h
  | attached i contents u newBlocks ha hu hgeneration hconvert =>
    refine (attach_iff h hs (hs.uploads u (List.mem_of_getElem? hu)) hconvert).trans ⟨?_, ?_⟩
    · rintro hapart j other v hj hv -
      obtain ⟨rfl, -⟩ := UploadAction.converted.inj (ha.symm.trans hj)
      rw [hu, Option.some.injEq] at hv
      exact hv ▸ hapart
    · intro hok
      exact hok i contents u ha hu hgeneration
  | render allowImages resetKey ha =>
    exact iff_of_true (h.sublist UploadState.shrinks_flushEffects.contentBlocks)
      fun i contents _ hi => absurd hi (ha i contents)
  | shrinks _ hshrinks ha =>
    exact iff_of_true (h.sublist hshrinks.contentBlocks)
      fun i contents u hi hu hgeneration => absurd hgeneration (ha i contents u hi hu)

/-- **One attachment for each file**, in every run whose uploads complete apart from what is
    pending; from such a state a step keeps it so exactly when it completes no upload otherwise. In
    every run, no attachment is from an upload that was started before a reset or a change of the
    thread, once the effects of the render that changed the thread have run. -/
theorem one_attachment_per_file (initialBlocks : List Block) (allowImages : Bool)
    (resetKey : Option String) (s : UploadState) :
    (useFileUpload.Reach CompletesApart (.start initialBlocks allowImages resetKey) s →
      s.OnePerFile ∧ ∀ a s', useFileUpload.step s a = some s' →
        (s'.OnePerFile ↔ CompletesApart s a)) ∧
    (useFileUpload.Reach Lts.Anything (.start initialBlocks allowImages resetKey) s →
      s.threadPending = false → s.NoneStale) := by
  constructor
  · intro h
    have hstart := UploadState.sound_start initialBlocks allowImages resetKey
    have hinv : s.OnePerFile ∧ s.Sound :=
      h.invariant (I := fun s => s.OnePerFile ∧ s.Sound) ⟨onePerFile_start .., hstart⟩
        fun _ _ _ hi hok hs => ⟨(onePerFile_step_iff hi.1 hi.2 hs).mpr hok, hi.2.step hs⟩
    exact ⟨hinv.1, fun a s' hs => onePerFile_step_iff hinv.1 hinv.2 hs⟩
  · intro h
    have hcurrent : s.Current := h.invariant
      (UploadState.current_start initialBlocks allowImages resetKey)
      fun _ _ _ hi _ hs => hi.step hs
    exact hcurrent.noneStale

/-! ## The same file twice -/

def notes : File := ⟨"notes.txt", "text/plain", 5⟩

def notesContents : Contents := ⟨"bm90ZXM=", "notes", false, none, none⟩

/-- Two files of one name and type, dropped together, are both attached. -/
theorem same_file_attached_twice :
    ¬ ∀ s, useFileUpload.Reach Lts.Anything (.start [] false none) s → s.OnePerFile := by
  intro h
  obtain ⟨s, hs, hp⟩ := Lts.exists_of_run useFileUpload (.start [] false none)
    [.effects, .addFiles 0 [notes, notes], .converted 0 [notesContents, notesContents]]
    (P := fun s => !decide s.OnePerFile) (by decide +kernel)
  exact absurd (h s hs) (by simpa using hp)

/-- A file that is dropped and attached. -/
theorem one_attachment_per_file_notes :
    ∃ s, useFileUpload.Reach CompletesApart (.start [] false none) s ∧ s.OnePerFile ∧
      s.NoneStale ∧ s.contentBlocks.length = 1 := by
  have hrun : (useFileUpload.run [.effects, .addFiles 0 [notes]] (.start [] false none)).any
      (fun s => s.contentBlocks.isEmpty && s.uploads.all (·.uniqueFiles.length ≤ 1) &&
        (useFileUpload.step s (.converted 0 [notesContents])).any fun s =>
          decide (s.contentBlocks.length = 1) && !s.threadPending) = true := by
    decide +kernel
  obtain ⟨s, hs, hp⟩ := (Option.any_eq_true ..).mp hrun
  simp only [Bool.and_eq_true, List.isEmpty_iff, List.all_eq_true, decide_eq_true_eq] at hp
  obtain ⟨⟨hempty, huploads⟩, hstep⟩ := hp
  obtain ⟨s', hs', hp'⟩ := (Option.any_eq_true ..).mp hstep
  simp only [Bool.and_eq_true, decide_eq_true_eq, Bool.not_eq_true'] at hp'
  obtain ⟨hlength, hthread⟩ := hp'
  have hreach : useFileUpload.Reach CompletesApart (.start [] false none) s := by
    refine Lts.Reach.start.of_run ?_ hs
    intro a ha t i contents u hi
    rcases List.mem_cons.mp ha with rfl | ha
    · exact absurd hi (by simp)
    · obtain rfl := List.mem_singleton.mp ha
      exact absurd hi (by simp)
  have hreach' := hreach.step _ (fun i contents u _ hu _ => by
    have hone := huploads u (List.mem_of_getElem? hu)
    refine ⟨?_, by simp [hempty], by simp [hempty]⟩
    match u.uniqueFiles, hone with
    | [], _ => exact .nil
    | [_], _ => exact List.pairwise_singleton ..) hs'
  obtain ⟨hone, -⟩ := (one_attachment_per_file [] false none s').1 hreach'
  have hstale := (one_attachment_per_file [] false none s').2 hreach'.anything hthread
  exact ⟨s', hreach', hone, hstale, hlength⟩

-- The conversion ends after the thread has changed.
example : (useFileUpload.run [.effects, .addFiles 0 [notes], .render false (some "t2"), .effects,
    .converted 0 [notesContents]] (.start [] false (some "t1"))).map
      (fun s => (s.contentBlocks.length, s.epoch)) = some (0, 1) := by decide +kernel

end Frontend

end HyChat
