import HyChat.Agents.Multimodal
import HyChat.Lib.Js

/-!
# What an image is, at both ends

The browser keeps images from models that cannot read them with `isImageContentBlock`, the server
with `_is_image_content_block`. Both go through the same fields of a content block. Each takes the
MIME type from the first of several spellings: the browser from the first that is given, the server
from the first that is truthy, and the two try the spellings in different orders.

An end can find an image in five places of a block: its own MIME type, that of its source, the MIME
type and the data of its nested file, and its url. A place is **disputed** when only one end finds
one there, and `Disputed` says by what fields that happens: an empty spelling before an image, two
spellings that contradict each other, white space that only one language strips, an empty container
that hides the source. **The two ends agree on a block exactly when its type can be hashed and no
place is disputed, or an image that both find, or another dispute the other way, makes up for it**
(`image_blocks_agree_iff`).

`End` describes both functions at once, as the order of the spellings and the tests an end makes,
so that what is said of one end is proved for both; the functions themselves are stated as the
source has them, and equal to it. That letters beyond ASCII are lowered alike is not used: none of
them becomes a letter of the words that are looked for and nothing else.
-/

set_option autoImplicit false

namespace HyChat

open Lib Chat Multimodal

namespace ImageBlocks

/-! ## The browser -/

/-- `block.k₁ ?? block.k₂ ?? …` -/
def firstGiven (block : Block) : List String → Json
  | [] => .null
  | [key] => block.get key
  | key :: keys => if block.get key = .null then firstGiven block keys else block.get key

/-- What `!value` takes for true; here an empty array or object is. -/
def given : Json → Bool
  | .arr _ | .obj _ => true
  | value => truthy value

/-- `value.trim().toLowerCase().startsWith(start)` when the value is a string -/
def startsLower (start : String) : Json → Bool
  | .str s => start.toList.isPrefixOf ((Js.trim s.toList).map lower)
  | _ => false

def isImageMimeType (value : Json) : Bool := startsLower "image/" value

def isImageDataUrl (value : Json) : Bool := startsLower "data:image/" value

/-- `mimeType`, of the block or else of its source -/
def mimeTypeOf (block : Block) : Json :=
  let mimeType := firstGiven block
    ["mimeType", "mime_type", "mediaType", "media_type", "contentType", "content_type"]
  match given mimeType, block.get "source" with
  | false, .obj source =>
      firstGiven source ["mimeType", "mime_type", "mediaType", "media_type"]
  | _, _ => mimeType

/-- The nested file has an image's MIME type or data. -/
def nestedImage (block : Block) : Bool :=
  match block.get "file" with
  | .obj file =>
      isImageMimeType (firstGiven file
        ["mimeType", "mime_type", "mediaType", "media_type", "contentType", "content_type"]) ||
        isImageDataUrl (firstGiven file ["file_data", "url"])
  | _ => false

def isImageContentBlock (block : Block) : Bool :=
  let type := block.get "type"
  if type = .str "image" ∨ type = .str "image_url" ∨ type = .str "input_image" then true
  else if type = .str "file" ∧ (nestedImage block || isImageDataUrl (block.get "url")) then true
  else decide (type = .str "file" ∨ type = .str "media") && isImageMimeType (mimeTypeOf block)

/-! ## Two ends that look for an image -/

/-- How an end goes through the fields of a block -/
structure End where
  /-- The values at which it stops trying other spellings -/
  stops : Json → Bool
  /-- The MIME types with which the source is not asked -/
  taken : Json → Bool
  image : Json → Bool
  dataUrl : Json → Bool
  keys : List String
  sourceKeys : List String
  fileKeys : List String

def isGiven (value : Json) : Bool := value ≠ .null

def browser : End where
  stops := isGiven
  taken := given
  image := isImageMimeType
  dataUrl := isImageDataUrl
  keys := ["mimeType", "mime_type", "mediaType", "media_type", "contentType", "content_type"]
  sourceKeys := ["mimeType", "mime_type", "mediaType", "media_type"]
  fileKeys := ["mimeType", "mime_type", "mediaType", "media_type", "contentType", "content_type"]

def server : End where
  stops := truthy
  taken := truthy
  image := isImageMime
  dataUrl := Multimodal.isImageDataUrl
  keys := ["mime_type", "mimeType", "media_type", "mediaType", "content_type", "contentType"]
  sourceKeys := ["media_type", "mediaType", "mime_type", "mimeType"]
  fileKeys := ["media_type", "mediaType", "mime_type", "mimeType", "content_type", "contentType"]

/-- The first of the spellings whose value stops an end -/
def First (stops : Json → Bool) (fields : Block) (keys : List String) (key : String) : Prop :=
  keys.find? (fun k => stops (fields.get k)) = some key

abbrev FirstGiven : Block → List String → String → Prop := First isGiven

abbrev FirstTruthy : Block → List String → String → Prop := First truthy

/-- A place of a block in which an image can stand -/
inductive Place
  | mimeType
  | source
  | file
  | fileData
  | url

/-- The types with which the MIME type counts -/
def IsMedia (block : Block) : Prop :=
  block.get "type" = .str "file" ∨ block.get "type" = .str "media"

namespace End

variable (e : End)

/-- The spelling at which the end stops has a value that it accepts. -/
def Reads (accepts : Json → Bool) (fields : Block) (keys : List String) : Prop :=
  ∃ key, First e.stops fields keys key ∧ accepts (fields.get key) = true

/-- No spelling in the block gives the end a MIME type. -/
def Asks (block : Block) : Prop :=
  ∀ key, First e.stops block e.keys key → e.taken (block.get key) = false

/-- The end finds an image in a place of the block. -/
def Sees (block : Block) : Place → Prop
  | .mimeType => IsMedia block ∧ e.Reads e.image block e.keys
  | .source => IsMedia block ∧ e.Asks block ∧
      ∃ source, block.get "source" = .obj source ∧ e.Reads e.image source e.sourceKeys
  | .file => block.get "type" = .str "file" ∧
      ∃ file, block.get "file" = .obj file ∧ e.Reads e.image file e.fileKeys
  | .fileData => block.get "type" = .str "file" ∧
      ∃ file, block.get "file" = .obj file ∧ e.Reads e.dataUrl file ["file_data", "url"]
  | .url => block.get "type" = .str "file" ∧ e.dataUrl (block.get "url") = true

/-- The value of the first spelling that stops the end, or of the last -/
def pick (block : Block) : List String → Json
  | [] => .null
  | [key] => block.get key
  | key :: keys => if e.stops (block.get key) then block.get key else pick block keys

/-- The MIME type as the end finds it -/
def mimeType (block : Block) : Json :=
  match e.taken (e.pick block e.keys), block.get "source" with
  | false, .obj source => e.pick source e.sourceKeys
  | _, _ => e.pick block e.keys

/-- The nested file has an image's MIME type or data. -/
def nested (block : Block) : Bool :=
  match block.get "file" with
  | .obj file => e.image (e.pick file e.fileKeys) || e.dataUrl (e.pick file ["file_data", "url"])
  | _ => false

/-- What the end looks at when the type of the block does not say it -/
def finds (block : Block) : Bool :=
  (decide (block.get "type" = .str "file") &&
      (e.nested block || e.dataUrl (block.get "url"))) ||
    (decide (block.get "type" = .str "file" ∨ block.get "type" = .str "media") &&
      e.image (e.mimeType block))

/-- What an end accepts stops it, and nothing is accepted where there is nothing. -/
structure Regular : Prop where
  taken : ∀ value, e.taken value = true → e.stops value = true
  image : ∀ value, e.image value = true → e.taken value = true
  dataUrl : ∀ value, e.dataUrl value = true → e.taken value = true
  null : e.taken .null = false

end End

/-! ## What an end finds -/

section Finding

variable {e : End} {accepts : Json → Bool} {block : Block} {keys : List String}

/-- What is picked is accepted exactly when the end reads it. -/
theorem accepts_pick_iff (haccepts : ∀ value, accepts value = true → e.stops value = true)
    (hnull : accepts .null = false) (keys : List String) :
    accepts (e.pick block keys) = true ↔ e.Reads accepts block keys := by
  induction keys with
  | nil => simp [End.pick, hnull, End.Reads, First]
  | cons key keys ih =>
    cases hstops : e.stops (block.get key) with
    | true =>
      have hpick : e.pick block (key :: keys) = block.get key := by
        cases keys with
        | nil => rfl
        | cons next keys => simp [End.pick, hstops]
      rw [hpick]
      simp [End.Reads, First, hstops]
    | false =>
      have hnot : accepts (block.get key) = false := by
        rw [Bool.eq_false_iff]
        exact fun h => by simp [haccepts _ h] at hstops
      have hreads : e.Reads accepts block (key :: keys) ↔ e.Reads accepts block keys := by
        simp [End.Reads, First, hstops]
      rw [hreads, ← ih]
      cases keys with
      | nil => simp [End.pick, hnot, hnull]
      | cons next keys => simp [End.pick, hstops]

theorem End.Regular.image_iff (hr : e.Regular) (keys : List String) :
    e.image (e.pick block keys) = true ↔ e.Reads e.image block keys := by
  refine accepts_pick_iff (fun value h => hr.taken value (hr.image value h)) ?_ keys
  exact Bool.eq_false_iff.mpr fun h => by simpa [hr.null] using hr.image _ h

theorem End.Regular.dataUrl_iff (hr : e.Regular) (keys : List String) :
    e.dataUrl (e.pick block keys) = true ↔ e.Reads e.dataUrl block keys := by
  refine accepts_pick_iff (fun value h => hr.taken value (hr.dataUrl value h)) ?_ keys
  exact Bool.eq_false_iff.mpr fun h => by simpa [hr.null] using hr.dataUrl _ h

theorem End.Regular.asks_iff (hr : e.Regular) :
    e.taken (e.pick block e.keys) = false ↔ e.Asks block := by
  rw [← Bool.not_eq_true, accepts_pick_iff hr.taken hr.null]
  simp only [End.Reads, End.Asks, not_exists, not_and, Bool.not_eq_true]

/-- The source is asked when no spelling in the block gives a MIME type. -/
theorem End.Regular.mimeType_iff (hr : e.Regular) :
    e.image (e.mimeType block) = true ↔
      e.Reads e.image block e.keys ∨
        (e.Asks block ∧ ∃ source, block.get "source" = .obj source ∧
          e.Reads e.image source e.sourceKeys) := by
  rw [← hr.image_iff, ← hr.asks_iff]
  unfold End.mimeType
  split
  · rename_i source htaken hsource
    have hnot : e.image (e.pick block e.keys) ≠ true := fun h => by simp [hr.image _ h] at htaken
    simp [htaken, hsource, hnot, hr.image_iff]
  · rename_i hother
    constructor
    · exact .inl
    · rintro (h | ⟨htaken, source, hsource, -⟩)
      · exact h
      · exact (hother source htaken hsource).elim

theorem End.Regular.nested_iff (hr : e.Regular) :
    e.nested block = true ↔
      ∃ file, block.get "file" = .obj file ∧
        (e.Reads e.image file e.fileKeys ∨ e.Reads e.dataUrl file ["file_data", "url"]) := by
  unfold End.nested
  split
  · rename_i file hfile
    simp [hfile, hr.image_iff, hr.dataUrl_iff]
  · rename_i hother
    simp only [Bool.false_eq_true, false_iff]
    rintro ⟨file, hfile, -⟩
    exact hother file hfile

theorem End.Regular.finds_iff (hr : e.Regular) :
    e.finds block = true ↔ ∃ place, e.Sees block place := by
  simp only [End.finds, Bool.or_eq_true, Bool.and_eq_true, decide_eq_true_eq, hr.nested_iff,
    hr.mimeType_iff]
  constructor
  · rintro (⟨htype, ⟨file, h, hk | hk⟩ | hurl⟩ | ⟨htype, hk | ⟨hasks, source, h, hk⟩⟩)
    · exact ⟨.file, htype, file, h, hk⟩
    · exact ⟨.fileData, htype, file, h, hk⟩
    · exact ⟨.url, htype, hurl⟩
    · exact ⟨.mimeType, htype, hk⟩
    · exact ⟨.source, htype, hasks, source, h, hk⟩
  · rintro ⟨place, h⟩
    cases place with
    | mimeType => exact .inr ⟨h.1, .inl h.2⟩
    | source => exact .inr ⟨h.1, .inr h.2⟩
    | file =>
      obtain ⟨htype, file, hfile, hk⟩ := h
      exact .inl ⟨htype, .inl ⟨file, hfile, .inl hk⟩⟩
    | fileData =>
      obtain ⟨htype, file, hfile, hk⟩ := h
      exact .inl ⟨htype, .inl ⟨file, hfile, .inr hk⟩⟩
    | url => exact .inl ⟨h.1, .inr h.2⟩

end Finding

/-! ## What each end computes -/

theorem exists_of_startsLower {start : String} {value : Json} (h : startsLower start value = true) :
    ∃ s, value = .str s ∧ start.toList.isPrefixOf ((Js.trim s.toList).map lower) = true := by
  cases value with
  | str s => exact ⟨s, rfl, h⟩
  | _ => simp [startsLower] at h

/-- A text that starts with something is not empty, so it is truthy. -/
theorem truthy_of_startsLower {start : String} (hstart : start.toList ≠ []) {value : Json}
    (h : startsLower start value = true) : truthy value = true := by
  obtain ⟨s, rfl, hs⟩ := exists_of_startsLower h
  simp only [truthy, bne_iff_ne, ne_eq]
  rintro rfl
  exact hstart (by simpa [Js.trim, stripWhile] using hs)

theorem truthy_of_startsLower_server {start : String} (hstart : start.toList ≠ []) {value : Json}
    (h : Multimodal.startsLower start value = true) : truthy value = true := by
  cases value with
  | str s =>
    simp only [truthy, bne_iff_ne, ne_eq]
    rintro rfl
    exact hstart (by simpa [Multimodal.startsLower, Py.strip, stripWhile] using h)
  | _ => simp [Multimodal.startsLower] at h

theorem given_of_truthy {value : Json} (h : truthy value = true) : given value = true := by
  cases value <;> simp_all [given]

theorem isGiven_of_given {value : Json} (h : given value = true) : isGiven value = true := by
  refine decide_eq_true ?_
  rintro rfl
  cases h

theorem browser_regular : browser.Regular where
  taken value h := isGiven_of_given h
  image value h := given_of_truthy (truthy_of_startsLower (by decide) h)
  dataUrl value h := given_of_truthy (truthy_of_startsLower (by decide) h)
  null := rfl

/-- Both ends are regular: what they accept stops them. -/
theorem server_regular : server.Regular where
  taken _ h := h
  image value h := truthy_of_startsLower_server (by decide) h
  dataUrl value h := truthy_of_startsLower_server (by decide) h
  null := rfl

theorem firstGiven_eq_pick (block : Block) (keys : List String) :
    firstGiven block keys = browser.pick block keys := by
  induction keys with
  | nil => rfl
  | cons key keys ih =>
    cases keys with
    | nil => rfl
    | cons next keys =>
      by_cases h : block.get key = .null
      · simp [firstGiven, End.pick, ih, h, browser, isGiven]
      · simp [firstGiven, End.pick, h, browser, isGiven]

theorem firstOf_eq_pick (block : Block) (keys : List String) :
    block.firstOf keys = server.pick block keys := by
  induction keys with
  | nil => rfl
  | cons key keys ih =>
    cases keys with
    | nil => rfl
    | cons next keys =>
      simp only [Block.firstOf, End.pick, ih]
      rfl

/-- The types an image has by itself -/
def imageTypes : List Json := [.str "image", .str "image_url", .str "input_image"]

theorem mimeTypeOf_browser (block : Block) : mimeTypeOf block = browser.mimeType block := by
  simp only [mimeTypeOf, End.mimeType, firstGiven_eq_pick]
  rfl

theorem mimeTypeOf_server (block : Block) :
    Multimodal.mimeTypeOf block = server.mimeType block := by
  simp only [Multimodal.mimeTypeOf, End.mimeType, firstOf_eq_pick]
  rfl

theorem nestedImage_browser (block : Block) : nestedImage block = browser.nested block := by
  simp only [nestedImage, End.nested, firstGiven_eq_pick]
  rfl

theorem nestedImage_server (block : Block) :
    Multimodal.nestedImage block = server.nested block := by
  simp only [Multimodal.nestedImage, End.nested, firstOf_eq_pick]
  rfl

/-- The browser's function is the description of its end. -/
theorem browser_eq (block : Block) :
    isImageContentBlock block =
      (decide (block.get "type" ∈ imageTypes) || browser.finds block) := by
  have hurl : browser.dataUrl (block.get "url") = isImageDataUrl (block.get "url") := rfl
  have hmime : browser.image (browser.mimeType block) = isImageMimeType (browser.mimeType block) :=
    rfl
  simp only [isImageContentBlock, mimeTypeOf_browser, nestedImage_browser, End.finds, hurl, hmime]
  generalize browser.nested block = nested
  generalize isImageDataUrl (block.get "url") = url
  generalize isImageMimeType (browser.mimeType block) = mime
  by_cases htype : block.get "type" ∈ imageTypes
  · have hnamed := htype
    simp only [imageTypes, List.mem_cons, List.not_mem_nil, or_false] at hnamed
    simp [htype, hnamed]
  · have hnamed := htype
    simp only [imageTypes, List.mem_cons, List.not_mem_nil, or_false] at hnamed
    by_cases hfile : block.get "type" = .str "file"
    · cases nested <;> cases url <;> simp [imageTypes, hfile]
    · simp [htype, hnamed, hfile]

/-- A type that can be hashed: a list or a dictionary cannot. -/
def Hashable : Json → Prop
  | .arr _ | .obj _ => False
  | _ => True

theorem typeIn_of_hashable {block : Block} (h : Hashable (block.get "type"))
    (types : List String) :
    typeIn block types = .ok (decide (block.get "type" ∈ types.map Json.str)) := by
  unfold typeIn
  cases htype : block.get "type" <;> simp_all [Hashable]

/-- The server's function is the description of its end, for a type that can be hashed. -/
theorem server_eq (block : Block) (h : Hashable (block.get "type")) :
    Multimodal.isImageContentBlock block =
      .ok (decide (block.get "type" ∈ imageTypes) || server.finds block) := by
  have hurl : server.dataUrl (block.get "url") = Multimodal.isImageDataUrl (block.get "url") := rfl
  have hmime : server.image (server.mimeType block) = isImageMime (server.mimeType block) := rfl
  simp only [Multimodal.isImageContentBlock, mimeTypeOf_server, nestedImage_server, End.finds,
    hurl, hmime, typeIn_of_hashable h]
  generalize server.nested block = nested
  generalize Multimodal.isImageDataUrl (block.get "url") = url
  generalize isImageMime (server.mimeType block) = mime
  by_cases htype : block.get "type" ∈ imageTypes
  · have hnamed := htype
    simp only [imageTypes, List.mem_cons, List.not_mem_nil, or_false] at hnamed
    simp [htype, hnamed, bind, Except.bind, pure, Except.pure]
  · have hnamed := htype
    simp only [imageTypes, List.mem_cons, List.not_mem_nil, or_false] at hnamed
    by_cases hfile : block.get "type" = .str "file"
    · cases nested <;> cases url <;>
        simp [imageTypes, hfile, bind, Except.bind, pure, Except.pure]
    · simp [htype, hnamed, hfile, bind, Except.bind, pure, Except.pure]

/-! ## Disputes -/

inductive Side
  | browser
  | server

namespace Side

def other : Side → Side
  | browser => server
  | server => browser

def ends : Side → End
  | browser => ImageBlocks.browser
  | server => ImageBlocks.server

/-- What `trim` or `strip` takes off -/
def isSpace : Side → Char → Bool
  | browser => Js.isSpace
  | server => Py.isSpace

def startsLower : Side → String → Json → Bool
  | browser => ImageBlocks.startsLower
  | server => Multimodal.startsLower

end Side

/-- The value starts so after white space, some of which the other end does not strip. -/
def OnlyStrips (side : Side) (start : String) (value : Json) : Prop :=
  ∃ blank rest : List Char, value = .str (String.ofList (blank ++ rest)) ∧
    (∀ c ∈ blank, side.isSpace c = true) ∧ (∃ c ∈ blank, side.other.isSpace c = false) ∧
    start.toList <+: rest.map lower

/-- What makes only one end read an image from the spellings of one thing -/
inductive Dispute (start : String) (fields : Block) (browserKeys serverKeys : List String) :
    Side → Prop
  /-- The browser stops at an empty value, the server goes on to an image. -/
  | emptied {k k' : String} (hk : FirstGiven fields browserKeys k)
      (hempty : truthy (fields.get k) = false) (hk' : FirstTruthy fields serverKeys k')
      (himage : Multimodal.startsLower start (fields.get k') = true) :
      Dispute start fields browserKeys serverKeys .server
  /-- The browser stops at an image, the server at another spelling which says something else. -/
  | contradicted {k k' : String} (hne : k ≠ k') (hk : FirstGiven fields browserKeys k)
      (hk' : FirstTruthy fields serverKeys k') (himage : startsLower start (fields.get k) = true)
      (hother : Multimodal.startsLower start (fields.get k') = false) :
      Dispute start fields browserKeys serverKeys .browser
  /-- The other way round -/
  | contradicts {k k' : String} (hne : k ≠ k') (hk : FirstGiven fields browserKeys k)
      (htruthy : truthy (fields.get k) = true) (hk' : FirstTruthy fields serverKeys k')
      (hother : startsLower start (fields.get k) = false)
      (himage : Multimodal.startsLower start (fields.get k') = true) :
      Dispute start fields browserKeys serverKeys .server
  /-- Both stop at the same spelling, and only one of them strips its white space. -/
  | blank {k : String} {side : Side} (hk : FirstGiven fields browserKeys k)
      (hk' : FirstTruthy fields serverKeys k) (h : OnlyStrips side start (fields.get k)) :
      Dispute start fields browserKeys serverKeys side

/-- What makes only one end find an image in the source of a block -/
inductive SourceDispute (block source : Block) : Side → Prop
  /-- Both ends ask the source. -/
  | within {side : Side} (hbrowser : browser.Asks block) (hserver : server.Asks block)
      (h : Dispute "image/" source browser.sourceKeys server.sourceKeys side) :
      SourceDispute block source side
  /-- A spelling in the block is empty, and with it the browser asks the source; the server takes
      another one. -/
  | emptied {k k' : String} (hk : FirstGiven block browser.keys k)
      (hempty : given (block.get k) = false) (hk' : FirstTruthy block server.keys k')
      (himage : browser.Reads isImageMimeType source browser.sourceKeys) :
      SourceDispute block source .browser
  /-- An empty array or object stands for the MIME type, which only the server passes over. -/
  | container {k : String} (hk : FirstGiven block browser.keys k)
      (hempty : block.get k = .arr [] ∨ block.get k = .obj []) (hserver : server.Asks block)
      (himage : server.Reads isImageMime source server.sourceKeys) :
      SourceDispute block source .server

/-- Only one end finds an image in a place of the block. -/
def Disputed (block : Block) : Place → Side → Prop
  | .mimeType, side => IsMedia block ∧ Dispute "image/" block browser.keys server.keys side
  | .source, side => IsMedia block ∧
      ∃ source, block.get "source" = .obj source ∧ SourceDispute block source side
  | .file, side => block.get "type" = .str "file" ∧
      ∃ file, block.get "file" = .obj file ∧
        Dispute "image/" file browser.fileKeys server.fileKeys side
  | .fileData, side => block.get "type" = .str "file" ∧
      ∃ file, block.get "file" = .obj file ∧
        Dispute "data:image/" file ["file_data", "url"] ["file_data", "url"] side
  | .url, side => block.get "type" = .str "file" ∧
      OnlyStrips side "data:image/" (block.get "url")

/-! ## Spellings that are disputed -/

/-- The first one is one. -/
theorem First.unique {stops : Json → Bool} {fields : Block} {keys : List String} {k k' : String}
    (h : First stops fields keys k) (h' : First stops fields keys k') : k = k' :=
  Option.some.inj (h.symm.trans h')

theorem First.stops {stops : Json → Bool} {fields : Block} {keys : List String} {k : String}
    (h : First stops fields keys k) : stops (fields.get k) = true := by
  have hfind : keys.find? (fun k => stops (fields.get k)) = some k := h
  have hsome := List.find?_some hfind
  exact hsome

theorem First.mem {stops : Json → Bool} {fields : Block} {keys : List String} {k : String}
    (h : First stops fields keys k) : k ∈ keys := List.mem_of_find?_eq_some h

/-- A value that stops an end is preceded by the first one. -/
theorem exists_first {stops : Json → Bool} {fields : Block} {keys : List String} {k : String}
    (hk : k ∈ keys) (hstops : stops (fields.get k) = true) : ∃ k', First stops fields keys k' := by
  have hsome : (keys.find? fun k => stops (fields.get k)).isSome = true :=
    List.find?_isSome.mpr ⟨k, hk, hstops⟩
  exact Option.isSome_iff_exists.mp hsome

theorem isGiven_of_truthy {value : Json} (h : truthy value = true) : isGiven value = true :=
  isGiven_of_given (given_of_truthy h)

/-- The words that are looked for have nothing in them that an end strips. -/
structure Word (start : String) : Prop where
  ne : start.toList ≠ []
  solid : ∀ side : Side, ∀ c, side.isSpace c = true → lower c ∉ start.toList

theorem lower_of_isSpace {side : Side} {c : Char} (h : side.isSpace c = true) : lower c = c := by
  refine if_neg ?_
  simp only [Bool.and_eq_true, decide_eq_true_eq, not_and]
  intro hA hZ
  have hA' : 65 ≤ c.toNat := hA
  have hZ' : c.toNat ≤ 90 := hZ
  cases side with
  | browser =>
    simp only [Side.isSpace, Js.isSpace, Bool.or_eq_true, Bool.and_eq_true, decide_eq_true_eq,
      beq_iff_eq] at h
    omega
  | server =>
    simp only [Side.isSpace, Py.isSpace, Bool.or_eq_true, Bool.and_eq_true, decide_eq_true_eq,
      beq_iff_eq] at h
    omega

theorem word_of_solid {start : String} (hne : start.toList ≠ [])
    (hsolid : start.toList.all (fun c => !Js.isSpace c && !Py.isSpace c) = true) : Word start := by
  refine ⟨hne, fun side c hc hmem => ?_⟩
  rw [lower_of_isSpace hc] at hmem
  have hnone := List.all_eq_true.mp hsolid c hmem
  simp only [Bool.and_eq_true, Bool.not_eq_true'] at hnone
  obtain ⟨hjs, hpy⟩ := hnone
  cases side with
  | browser => exact Bool.false_ne_true (hjs.symm.trans hc)
  | server => exact Bool.false_ne_true (hpy.symm.trans hc)

theorem word_image : Word "image/" := word_of_solid (by decide) (by decide)

theorem word_dataImage : Word "data:image/" := word_of_solid (by decide) (by decide)

theorem startsLower_str {side : Side} {start s : String} :
    side.startsLower start (.str s) = true ↔
      start.toList <+: (stripWhile side.isSpace s.toList).map lower := by
  cases side with
  | browser => exact List.isPrefixOf_iff_prefix
  | server => exact List.isPrefixOf_iff_prefix

theorem startsLower_eq_str {side : Side} {start : String} {value : Json}
    (h : side.startsLower start value = true) : ∃ s, value = .str s := by
  cases value with
  | str s => exact ⟨s, rfl⟩
  | _ => cases side <;> cases h

/-- **White space**: one end takes a value for an image and the other does not exactly when only the
    one strips what stands before it. -/
theorem apart_value_iff {start : String} (hword : Word start) {side : Side} {value : Json} :
    (side.startsLower start value = true ∧ side.other.startsLower start value = false) ↔
      OnlyStrips side start value := by
  constructor
  · rintro ⟨h, hother⟩
    obtain ⟨s, rfl⟩ := startsLower_eq_str h
    rw [← Bool.not_eq_true, startsLower_str] at hother
    rw [startsLower_str] at h
    obtain ⟨blank, rest, hs, hblank, hleft, hstart⟩ :=
      (prefix_stripWhile_apart_iff (hword.solid side) (hword.solid side.other) hword.ne _).mp
        ⟨h, hother⟩
    exact ⟨blank, rest, by rw [← hs, String.ofList_toList], hblank, hleft, hstart⟩
  · rintro ⟨blank, rest, rfl, hblank, hleft, hstart⟩
    rw [← Bool.not_eq_true, startsLower_str, startsLower_str, String.toList_ofList]
    exact (prefix_stripWhile_apart_iff (hword.solid side) (hword.solid side.other) hword.ne _).mpr
      ⟨blank, rest, rfl, hblank, hleft, hstart⟩

section Lists

variable {start : String} {fields : Block} {browserKeys serverKeys : List String}

/-- Only the browser reads an image from the spellings. -/
theorem dispute_browser_iff (hword : Word start) (hkeys : ∀ k ∈ browserKeys, k ∈ serverKeys) :
    (browser.Reads (startsLower start) fields browserKeys ∧
        ¬ server.Reads (Multimodal.startsLower start) fields serverKeys) ↔
      Dispute start fields browserKeys serverKeys .browser := by
  constructor
  · rintro ⟨⟨k, hk, himage⟩, hserver⟩
    have htruthy := truthy_of_startsLower hword.ne himage
    obtain ⟨k', hk'⟩ := exists_first (hkeys k hk.mem) htruthy
    have hother : Multimodal.startsLower start (fields.get k') = false := by
      rw [← Bool.not_eq_true]
      exact fun h => hserver ⟨k', hk', h⟩
    by_cases hsame : k = k'
    · subst hsame
      have honly : OnlyStrips .browser start (fields.get k) :=
        (apart_value_iff hword).mp ⟨himage, hother⟩
      exact .blank hk hk' honly
    · exact .contradicted hsame hk hk' himage hother
  · intro h
    cases h with
    | contradicted hne hk hk' himage hother =>
      refine ⟨⟨_, hk, himage⟩, ?_⟩
      rintro ⟨k₂, hk₂, h₂⟩
      rw [hk'.unique hk₂, h₂] at hother
      cases hother
    | blank hk hk' h =>
      obtain ⟨himage, hother⟩ := (apart_value_iff hword).mpr h
      refine ⟨⟨_, hk, himage⟩, ?_⟩
      rintro ⟨k₂, hk₂, h₂⟩
      rw [hk'.unique hk₂] at hother
      exact Bool.false_ne_true (hother.symm.trans h₂)

/-- Only the server reads an image from the spellings. -/
theorem dispute_server_iff (hword : Word start) (hkeys : ∀ k ∈ serverKeys, k ∈ browserKeys) :
    (server.Reads (Multimodal.startsLower start) fields serverKeys ∧
        ¬ browser.Reads (startsLower start) fields browserKeys) ↔
      Dispute start fields browserKeys serverKeys .server := by
  constructor
  · rintro ⟨⟨k', hk', himage⟩, hbrowser⟩
    obtain ⟨k, hk⟩ := exists_first (hkeys k' hk'.mem) (isGiven_of_truthy hk'.stops)
    have hother : startsLower start (fields.get k) = false := by
      rw [← Bool.not_eq_true]
      exact fun h => hbrowser ⟨k, hk, h⟩
    cases htruthy : truthy (fields.get k) with
    | false => exact .emptied hk htruthy hk' himage
    | true =>
      by_cases hsame : k = k'
      · subst hsame
        have honly : OnlyStrips .server start (fields.get k) :=
          (apart_value_iff hword).mp ⟨himage, hother⟩
        exact .blank hk hk' honly
      · exact .contradicts hsame hk htruthy hk' hother himage
  · intro h
    cases h with
    | emptied hk hempty hk' himage =>
      refine ⟨⟨_, hk', himage⟩, ?_⟩
      rintro ⟨k₂, hk₂, h₂⟩
      rw [hk.unique hk₂, truthy_of_startsLower hword.ne h₂] at hempty
      cases hempty
    | contradicts hne hk htruthy hk' hother himage =>
      refine ⟨⟨_, hk', himage⟩, ?_⟩
      rintro ⟨k₂, hk₂, h₂⟩
      rw [hk.unique hk₂, h₂] at hother
      cases hother
    | blank hk hk' h =>
      obtain ⟨himage, hother⟩ := (apart_value_iff hword).mpr h
      refine ⟨⟨_, hk', himage⟩, ?_⟩
      rintro ⟨k₂, hk₂, h₂⟩
      rw [hk.unique hk₂] at hother
      exact Bool.false_ne_true (hother.symm.trans h₂)

end Lists

/-! ## Places that are disputed

Each place is settled by the two ends on their own, and the lemmas here put the two answers
together. -/

variable {block : Block}

theorem mem_keys_iff (k : String) : k ∈ browser.keys ↔ k ∈ server.keys := by
  simp only [browser, server, List.mem_cons, List.not_mem_nil, or_false]
  grind

theorem mem_sourceKeys_iff (k : String) : k ∈ browser.sourceKeys ↔ k ∈ server.sourceKeys := by
  simp only [browser, server, List.mem_cons, List.not_mem_nil, or_false]
  grind

theorem mem_fileKeys_iff (k : String) : k ∈ browser.fileKeys ↔ k ∈ server.fileKeys := by
  simp only [browser, server, List.mem_cons, List.not_mem_nil, or_false]
  grind

/-- The server asks the source when none of the spellings is truthy. -/
theorem server_asks_iff : server.Asks block ↔ ∀ k, ¬ FirstTruthy block server.keys k := by
  constructor
  · intro h k hk
    exact Bool.false_ne_true ((h k hk).symm.trans hk.stops)
  · exact fun h k hk => absurd hk (h k)

theorem empty_of_given {value : Json} (hgiven : given value = true) (h : truthy value = false) :
    value = .arr [] ∨ value = .obj [] := by
  cases value with
  | arr xs => exact .inl (by simpa [truthy] using h)
  | obj kvs => exact .inr (by simpa [truthy] using h)
  | _ => exact absurd (hgiven.symm.trans h) (by simp)

/-- Only the browser finds an image in the source. -/
theorem source_browser_iff {source : Block} :
    ((browser.Asks block ∧ browser.Reads isImageMimeType source browser.sourceKeys) ∧
        ¬ (server.Asks block ∧ server.Reads isImageMime source server.sourceKeys)) ↔
      SourceDispute block source .browser := by
  have hlists : _ ↔ Dispute "image/" source browser.sourceKeys server.sourceKeys .browser :=
    dispute_browser_iff word_image fun k hk => (mem_sourceKeys_iff k).mp hk
  constructor
  · rintro ⟨⟨hasks, hreads⟩, hnot⟩
    by_cases hserver : server.Asks block
    · exact .within hasks hserver (hlists.mp ⟨hreads, fun h => hnot ⟨hserver, h⟩⟩)
    · rw [server_asks_iff] at hserver
      obtain ⟨k', hk'⟩ := not_forall_not.mp hserver
      obtain ⟨k, hk⟩ := exists_first ((mem_keys_iff k').mpr hk'.mem) (isGiven_of_truthy hk'.stops)
      exact .emptied hk (hasks k hk) hk' hreads
  · intro h
    cases h with
    | within hbrowser hserver h =>
      obtain ⟨hreads, hnot⟩ := hlists.mpr h
      exact ⟨⟨hbrowser, hreads⟩, fun h => hnot h.2⟩
    | emptied hk hempty hk' himage =>
      refine ⟨⟨fun k₂ hk₂ => hk.unique hk₂ ▸ hempty, himage⟩, fun h => ?_⟩
      exact server_asks_iff.mp h.1 _ hk'

/-- Only the server finds an image in the source. -/
theorem source_server_iff {source : Block} :
    ((server.Asks block ∧ server.Reads isImageMime source server.sourceKeys) ∧
        ¬ (browser.Asks block ∧ browser.Reads isImageMimeType source browser.sourceKeys)) ↔
      SourceDispute block source .server := by
  have hlists : _ ↔ Dispute "image/" source browser.sourceKeys server.sourceKeys .server :=
    dispute_server_iff word_image fun k hk => (mem_sourceKeys_iff k).mpr hk
  constructor
  · rintro ⟨⟨hasks, hreads⟩, hnot⟩
    by_cases hbrowser : browser.Asks block
    · exact .within hbrowser hasks (hlists.mp ⟨hreads, fun h => hnot ⟨hbrowser, h⟩⟩)
    · obtain ⟨k, hk⟩ := not_forall.mp hbrowser
      obtain ⟨hk, hgiven⟩ := Classical.not_imp.mp hk
      have hfalsy : truthy (block.get k) = false := by
        rw [← Bool.not_eq_true]
        intro htruthy
        obtain ⟨k', hk'⟩ := exists_first ((mem_keys_iff k).mp hk.mem) htruthy
        exact server_asks_iff.mp hasks k' hk'
      exact .container hk (empty_of_given (Bool.not_eq_false _ ▸ hgiven) hfalsy) hasks hreads
  · intro h
    cases h with
    | within hbrowser hserver h =>
      obtain ⟨hreads, hnot⟩ := hlists.mpr h
      exact ⟨⟨hserver, hreads⟩, fun h => hnot h.2⟩
    | container hk hempty hserver himage =>
      refine ⟨⟨hserver, himage⟩, fun h => ?_⟩
      have hno := h.1 _ hk
      rcases hempty with he | he
      · rw [he] at hno
        cases hno
      · rw [he] at hno
        cases hno

theorem apart_and {A P Q : Prop} : ((A ∧ P) ∧ ¬ (A ∧ Q)) ↔ A ∧ P ∧ ¬ Q := by
  constructor
  · rintro ⟨⟨ha, hp⟩, hnot⟩
    exact ⟨ha, hp, fun hq => hnot ⟨ha, hq⟩⟩
  · rintro ⟨ha, hp, hq⟩
    exact ⟨⟨ha, hp⟩, fun h => hq h.2⟩

/-- There is at most one object that is looked at. -/
theorem apart_obj {value : Json} {P Q : Block → Prop} :
    ((∃ fields, value = .obj fields ∧ P fields) ∧ ¬ ∃ fields, value = .obj fields ∧ Q fields) ↔
      ∃ fields, value = .obj fields ∧ P fields ∧ ¬ Q fields := by
  constructor
  · rintro ⟨⟨fields, rfl, hp⟩, hnot⟩
    exact ⟨fields, rfl, hp, fun hq => hnot ⟨fields, rfl, hq⟩⟩
  · rintro ⟨fields, rfl, hp, hq⟩
    refine ⟨⟨fields, rfl, hp⟩, ?_⟩
    rintro ⟨fields', he, hq'⟩
    cases he
    exact hq hq'

theorem apart_source {A : Prop} {B B' : Prop} {value : Json} {P Q : Block → Prop} :
    ((A ∧ B ∧ ∃ fields, value = .obj fields ∧ P fields) ∧
        ¬ (A ∧ B' ∧ ∃ fields, value = .obj fields ∧ Q fields)) ↔
      A ∧ ∃ fields, value = .obj fields ∧ (B ∧ P fields) ∧ ¬ (B' ∧ Q fields) := by
  rw [apart_and, and_congr_right_iff]
  intro _
  rw [← apart_obj]
  have hout (B : Prop) (P : Block → Prop) : (B ∧ ∃ fields, value = .obj fields ∧ P fields) ↔
      ∃ fields, value = .obj fields ∧ B ∧ P fields := by
    constructor
    · rintro ⟨hb, fields, he, hp⟩
      exact ⟨fields, he, hb, hp⟩
    · rintro ⟨fields, he, hb, hp⟩
      exact ⟨hb, fields, he, hp⟩
  rw [hout B P, hout B' Q]

/-- **A dispute, place by place**: the fields say that one end finds an image there and the other
    does not. -/
theorem disputed_iff (place : Place) (side : Side) :
    Disputed block place side ↔
      side.ends.Sees block place ∧ ¬ side.other.ends.Sees block place := by
  cases place with
  | mimeType =>
    refine Iff.trans (and_congr_right fun _ => ?_) apart_and.symm
    cases side with
    | browser => exact (dispute_browser_iff word_image fun k => (mem_keys_iff k).mp).symm
    | server => exact (dispute_server_iff word_image fun k => (mem_keys_iff k).mpr).symm
  | source =>
    refine Iff.trans (and_congr_right fun _ => exists_congr fun source => and_congr_right fun _ => ?_)
      apart_source.symm
    cases side with
    | browser => exact source_browser_iff.symm
    | server => exact source_server_iff.symm
  | file =>
    refine Iff.trans (and_congr_right fun _ => ?_) apart_and.symm
    refine Iff.trans (exists_congr fun file => and_congr_right fun _ => ?_) apart_obj.symm
    cases side with
    | browser => exact (dispute_browser_iff word_image fun k => (mem_fileKeys_iff k).mp).symm
    | server => exact (dispute_server_iff word_image fun k => (mem_fileKeys_iff k).mpr).symm
  | fileData =>
    refine Iff.trans (and_congr_right fun _ => ?_) apart_and.symm
    refine Iff.trans (exists_congr fun file => and_congr_right fun _ => ?_) apart_obj.symm
    cases side with
    | browser => exact (dispute_browser_iff word_dataImage fun _ hk => hk).symm
    | server => exact (dispute_server_iff word_dataImage fun _ hk => hk).symm
  | url =>
    refine Iff.trans (and_congr_right fun _ => ?_) apart_and.symm
    rw [← apart_value_iff word_dataImage, ← Bool.not_eq_true]
    cases side with
    | browser => exact Iff.rfl
    | server => exact Iff.rfl

/-- The fields of the block leave no dispute open: it has a type that can be hashed, and no place is
    disputed, or some place shows both ends an image, or each of them finds one that the other does
    not. -/
structure Settled (block : Block) : Prop where
  hashable : Hashable (block.get "type")
  places : (∀ place side, ¬ Disputed block place side) ∨
    (∃ place, browser.Sees block place ∧ server.Sees block place) ∨
    ∃ place place', Disputed block place .browser ∧ Disputed block place' .server

/-- A type that cannot be hashed raises. -/
theorem raises_of_not_hashable {block : Block} (h : ¬ Hashable (block.get "type")) :
    ∃ e, Multimodal.isImageContentBlock block = .error e := by
  cases htype : block.get "type" with
  | arr xs =>
    refine ⟨"unhashable type: 'list'", ?_⟩
    simp [Multimodal.isImageContentBlock, typeIn, htype, bind, Except.bind]
  | obj kvs =>
    refine ⟨"unhashable type: 'dict'", ?_⟩
    simp [Multimodal.isImageContentBlock, typeIn, htype, bind, Except.bind]
  | _ => simp [Hashable, htype] at h

theorem End.not_finds_of_named {e : End} {block : Block} (h : block.get "type" ∈ imageTypes) :
    e.finds block = false := by
  simp only [imageTypes, List.mem_cons, List.not_mem_nil, or_false] at h
  rcases h with h | h | h <;> simp [End.finds, h]

/-- The fields leave no dispute open exactly when both ends answer the same. -/
theorem settled_iff (block : Block) :
    Settled block ↔ Hashable (block.get "type") ∧ browser.finds block = server.finds block := by
  rw [Bool.eq_iff_iff, browser_regular.finds_iff, server_regular.finds_iff]
  have hbrowser (place : Place) : Disputed block place .browser ↔
      browser.Sees block place ∧ ¬ server.Sees block place := disputed_iff place .browser
  have hserver (place : Place) : Disputed block place .server ↔
      server.Sees block place ∧ ¬ browser.Sees block place := disputed_iff place .server
  constructor
  · rintro ⟨hashable, hnone | ⟨place, hb, hs⟩ | ⟨place, place', hb, hs⟩⟩
    · refine ⟨hashable, exists_congr fun place => ⟨fun hb => ?_, fun hs => ?_⟩⟩
      · by_contra hs
        exact hnone place .browser ((hbrowser place).mpr ⟨hb, hs⟩)
      · by_contra hb
        exact hnone place .server ((hserver place).mpr ⟨hs, hb⟩)
    · exact ⟨hashable, iff_of_true ⟨place, hb⟩ ⟨place, hs⟩⟩
    · exact ⟨hashable, iff_of_true ⟨place, ((hbrowser place).mp hb).1⟩
        ⟨place', ((hserver place').mp hs).1⟩⟩
  · rintro ⟨hashable, h⟩
    refine ⟨hashable, ?_⟩
    by_cases hseen : ∃ place, browser.Sees block place
    · obtain ⟨place, hb⟩ := hseen
      obtain ⟨place', hs⟩ := h.mp ⟨place, hb⟩
      by_cases hboth : server.Sees block place
      · exact .inr (.inl ⟨place, hb, hboth⟩)
      · by_cases hboth' : browser.Sees block place'
        · exact .inr (.inl ⟨place', hboth', hs⟩)
        · exact .inr (.inr ⟨place, place', (hbrowser place).mpr ⟨hb, hboth⟩,
            (hserver place').mpr ⟨hs, hboth'⟩⟩)
    · -- neither end finds anything
      refine .inl fun place side hdisputed => ?_
      cases side with
      | browser => exact hseen ⟨place, ((hbrowser place).mp hdisputed).1⟩
      | server => exact hseen (h.mpr ⟨place, ((hserver place).mp hdisputed).1⟩)

/-- **Both ends agree** on what is an image exactly when the fields leave no dispute open. -/
theorem image_blocks_agree_iff (block : Block) :
    Multimodal.isImageContentBlock block = .ok (isImageContentBlock block) ↔ Settled block := by
  rw [settled_iff]
  by_cases h : Hashable (block.get "type")
  · rw [server_eq block h, browser_eq block, Except.ok.injEq]
    by_cases hnamed : block.get "type" ∈ imageTypes
    · simp [h, hnamed, End.not_finds_of_named]
    · simp [h, hnamed, eq_comm]
  · obtain ⟨e, he⟩ := raises_of_not_hashable h
    simp [he, h]

/-- The browser stops at a MIME type that is given and empty; the server goes on to the next. -/
theorem image_blocks_disagree :
    ¬ ∀ block, Multimodal.isImageContentBlock block = .ok (isImageContentBlock block) := by
  intro h
  have := h [("type", .str "media"), ("mimeType", .str ""), ("mime_type", .str "image/png")]
  revert this
  decide

end ImageBlocks

end HyChat
