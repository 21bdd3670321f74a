import HyChat.Chat.ReplyCache
import HyChat.Lib.EventStream
import HyChat.Lib.JsonLine
import HyChat.Lib.JsonRead

/-!
# What a client reads of a streamed reply

`_sse` writes a frame as one block of an event stream. The text of a JSON value has no line break,
so a client that reads the stream and decodes the data of every event gets back what was streamed
(`decoded_body`). **What it has shown when the stream ends is the text the reply is stored as**, and
a reply that is answered from the cache shows that text again (`reply_read`).

The frames are those of `eventStream`, so nothing is assumed of the graph: it may stream what it
likes, fail, or stream a tool message that cannot be read, and what differs is only which frame
comes last. What is not modelled is a client that leaves before the stream ends.
-/

set_option autoImplicit false

namespace HyChat

open Lib

namespace Chat

/-- `_sse` -/
def sse (event : String) (data : List (String × Json)) : String :=
  let text := String.ofList (Json.obj data).spaced
  s!"event: {event}\ndata: {text}\n\n"

/-- What the response consists of -/
def Reply.body (reply : Reply) : String :=
  String.join (reply.frames.map fun frame => sse frame.event frame.data)

variable (float : Json.ReadFloat)

/-- What a client gets that decodes the data of every event -/
def decoded (stream : String) : List (String × Option Json) :=
  (EventStream.events stream).map fun e => (e.name, Json.loads float e.data)

/-- What the client of a frame gets -/
def Frame.decoded (frame : Frame) : String × Option Json := (frame.event, some (.obj frame.data))

/-- A frame that can be read back -/
structure Frame.Plain (frame : Frame) : Prop where
  event : EventStream.OneLine frame.event.toList
  named : frame.event ≠ ""
  data : Json.Readable float (.obj frame.data)

variable {float}

/-- **What is streamed is read back.** -/
theorem decoded_body {reply : Reply} (h : ∀ frame ∈ reply.frames, frame.Plain float) :
    decoded float reply.body = reply.frames.map Frame.decoded := by
  have hfits : ∀ e ∈ reply.frames.map fun frame =>
      (⟨frame.event, String.ofList (Json.obj frame.data).spaced⟩ : EventStream.Event), e.Fits := by
    intro e he
    obtain ⟨frame, hframe, rfl⟩ := List.mem_map.mp he
    refine ⟨(h frame hframe).event, (h frame hframe).named, ?_⟩
    rw [String.toList_ofList]
    exact (Json.printed_spaced _).oneLine
  have hevents := EventStream.feed_wire hfits
  rw [List.map_map] at hevents
  have hbody : reply.body = String.join (reply.frames.map (EventStream.Event.wire ∘ fun frame =>
      ⟨frame.event, String.ofList (Json.obj frame.data).spaced⟩)) := rfl
  rw [← hbody] at hevents
  rw [decoded, hevents, List.map_map]
  refine List.map_congr_left fun frame hframe => ?_
  simp only [Function.comp, Frame.decoded, Json.loads_spaced (h frame hframe).data]

theorem tokenFrame_plain (content : String) : (tokenFrame content).Plain float :=
  ⟨(by decide : EventStream.OneLine "token".toList), (by decide : "token" ≠ ""),
    by simp [tokenFrame, Json.Readable, Json.ReadableFields]⟩

theorem infoFrame_plain {event : String} (hevent : EventStream.OneLine event.toList)
    (hnamed : event ≠ "") (request : StreamRequest) (hit : Bool) :
    (infoFrame event request hit).Plain float :=
  ⟨hevent, hnamed, by simp [infoFrame, Json.Readable, Json.ReadableFields]⟩

/-! ## The frames of a reply -/

/-- The frames that are streamed on the way are those of the texts that are collected. -/
theorem frames_collect (py : Decoder) (run : GraphRun) :
    (collect py run).1.frames = (collect py run).1.contentParts.map tokenFrame := by
  refine collectFrom_invariant py (I := fun acc => acc.frames = acc.contentParts.map tokenFrame)
    (fun acc message acc' h he => ?_) rfl
  rcases contentParts_chunk py he with ⟨hparts, hframes⟩ | ⟨text, -, -, hparts, hframes⟩
  · rw [hparts, hframes, h]
  · simp [hparts, hframes, h]

/-- A text that is collected is not empty. -/
theorem contentParts_ne_empty (py : Decoder) (run : GraphRun) :
    ∀ text ∈ (collect py run).1.contentParts, text ≠ "" := by
  refine collectFrom_invariant py (I := fun acc => ∀ text ∈ acc.contentParts, text ≠ "")
    (fun acc message acc' h he => ?_) (List.forall_mem_nil _)
  rcases contentParts_chunk py he with ⟨hparts, -⟩ | ⟨text, -, hne, hparts, -⟩
  · rw [hparts]
    exact h
  · rw [hparts]
    exact List.forall_mem_append.mpr ⟨h, List.forall_mem_singleton.mpr hne⟩

theorem join_eq_empty {texts : List String} (h : ∀ text ∈ texts, text ≠ "") :
    String.join texts = "" ↔ texts = [] := by
  constructor
  · intro hjoin
    cases texts with
    | nil => rfl
    | cons text texts =>
      have hlist := congrArg String.toList hjoin
      rw [String.toList_join, List.flatMap_cons] at hlist
      have htext := (List.append_eq_nil_iff.mp hlist).1
      exact absurd (String.toList_eq_nil_iff.mp htext) (h text List.mem_cons_self)
  · rintro rfl
    rfl

def errorFrame (request : StreamRequest) : Frame :=
  ⟨"error", [("message", .str "聊天服务暂时不可用，请稍后重试"),
    ("request_id", .str request.requestId)]⟩

/-- The reply has broken off. -/
def Fails (py : Decoder) (cached : Option String) (run : GraphRun) : Prop :=
  cached = none ∧ run.Raises py

/-- What a reply consists of: the texts that are shown between the first frame and the last one -/
structure Streams (py : Decoder) (request : StreamRequest) (cached : Option String) (run : GraphRun)
    (reply : Reply) (texts : List String) (ending : Frame) : Prop where
  frames : reply.frames =
    infoFrame "metadata" request cached.isSome :: (texts.map tokenFrame ++ [ending])
  failed : Fails py cached run → ending = errorFrame request ∧ reply.stored = none
  ended : ¬Fails py cached run → ending = infoFrame "done" request cached.isSome
  again : ∀ content, cached = .some content → texts = [content]
  speaks : cached = none → String.join texts ≠ ""
  stored : ∀ content, reply.stored = .some content → String.join texts = content

theorem streams_cached (py : Decoder) (request : StreamRequest) (content : String) (run : GraphRun) :
    Streams py request (some content) run (eventStream py request (some content) run) [content]
      (infoFrame "done" request true) := by
  refine ⟨rfl, fun hfails => ?_, fun _ => rfl, fun c hc => ?_, fun hnone => ?_, fun c hc => ?_⟩
  · cases hfails.1
  · rw [Option.some.inj hc]
  · cases hnone
  · cases hc

/-- The apology is streamed when nothing else was. -/
theorem streams_raised (py : Decoder) (request : StreamRequest) {run : GraphRun}
    (hrun : run.Raises py) : ∃ texts,
      Streams py request none run (eventStream py request none run) texts (errorFrame request) := by
  have hframes := frames_collect py run
  have hne := join_eq_empty (contentParts_ne_empty py run)
  have hending := (collect_ending py run).mpr hrun
  cases hc : collect py run with
  | mk acc ending =>
    rw [hc] at hframes hne hending
    simp only at hframes hne hending
    subst hending
    cases hparts : acc.contentParts with
    | nil =>
      refine ⟨["查询失败。\n\n原因：聊天服务暂时不可用，请稍后重试。"], ?_, fun _ => ⟨rfl, ?_⟩,
        fun h => absurd ⟨rfl, hrun⟩ h, fun _ h => (by cases h), fun _ => by decide, ?_⟩
      · simp [eventStream, hc, hframes, hparts, errorFrame]
      · simp [eventStream, hc]
      · simp [eventStream, hc]
    | cons text texts =>
      refine ⟨text :: texts, ?_, fun _ => ⟨rfl, ?_⟩, fun h => absurd ⟨rfl, hrun⟩ h,
        fun _ h => (by cases h), fun _ => ?_, ?_⟩
      · simp [eventStream, hc, hframes, hparts, errorFrame]
      · simp [eventStream, hc]
      · rw [← hparts, Ne, hne, hparts]
        exact List.cons_ne_nil _ _
      · simp [eventStream, hc]

/-- What is stored is what was streamed, or what stands in for it. -/
theorem streams_completed (py : Decoder) (request : StreamRequest) {run : GraphRun}
    (hrun : ¬ run.Raises py) : ∃ texts,
      Streams py request none run (eventStream py request none run) texts
        (infoFrame "done" request false) := by
  have hframes := frames_collect py run
  have hne := contentParts_ne_empty py run
  have hfails : ¬Fails py none run := fun h => hrun h.2
  have hending := (not_congr (collect_ending py run)).mpr hrun
  cases hc : collect py run with
  | mk acc ending =>
    rw [hc] at hframes hne hending
    simp only at hframes hne hending
    cases ending with
    | raised => exact absurd rfl hending
    | completed =>
      by_cases hjoin : String.join acc.contentParts = ""
      · have hparts := (join_eq_empty hne).mp hjoin
        refine ⟨[emptyResponseFallback acc.toolErrors], ?_, fun h => absurd h hfails,
          fun _ => rfl, fun _ h => (by cases h), fun _ => ?_, ?_⟩
        · simp [eventStream, hc, hframes, hparts]
        · simpa using emptyResponseFallback_ne_empty _
        · simp [eventStream, hc, hparts]
      · refine ⟨acc.contentParts, ?_, fun h => absurd h hfails, fun _ => rfl,
          fun _ h => (by cases h), fun _ => hjoin, ?_⟩
        · simp [eventStream, hc, hframes, hjoin]
        · simp [eventStream, hc, hjoin]

theorem streams (py : Decoder) (request : StreamRequest) (cached : Option String) (run : GraphRun) :
    ∃ texts ending,
      Streams py request cached run (eventStream py request cached run) texts ending := by
  cases cached with
  | some content => exact ⟨_, _, streams_cached py request content run⟩
  | none =>
    by_cases hrun : run.Raises py
    · exact (streams_raised py request hrun).imp fun _ h => ⟨_, h⟩
    · exact (streams_completed py request hrun).imp fun _ h => ⟨_, h⟩

theorem Streams.plain {py : Decoder} {request : StreamRequest} {cached : Option String}
    {run : GraphRun} {texts : List String} {ending : Frame}
    (h : Streams py request cached run (eventStream py request cached run) texts ending) :
    ∀ frame ∈ (eventStream py request cached run).frames, frame.Plain float := by
  have hending : ending.Plain float := by
    by_cases hfails : Fails py cached run
    · rw [(h.failed hfails).1]
      exact ⟨(by decide : EventStream.OneLine "error".toList), (by decide : "error" ≠ ""),
        by simp [errorFrame, Json.Readable, Json.ReadableFields]⟩
    · rw [h.ended hfails]
      exact infoFrame_plain (by decide) (by decide) _ _
  rw [h.frames]
  refine List.forall_mem_cons.mpr ⟨infoFrame_plain (by decide) (by decide) _ _, ?_⟩
  refine List.forall_mem_append.mpr ⟨fun frame hframe => ?_, List.forall_mem_singleton.mpr hending⟩
  obtain ⟨text, -, rfl⟩ := List.mem_map.mp hframe
  exact tokenFrame_plain text

/-- **A client that decodes the stream** gets what the reply tells of the request, then the texts,
    and then that the reply has ended or failed. All texts together are what is stored, and a reply
    from the cache consists of what was stored. -/
theorem reply_read (float : Json.ReadFloat) (py : Decoder) (request : StreamRequest)
    (cached : Option String) (run : GraphRun) : ∃ texts ending,
      decoded float (eventStream py request cached run).body =
        (infoFrame "metadata" request cached.isSome).decoded ::
          (texts.map (fun text => (tokenFrame text).decoded) ++ [ending.decoded]) ∧
      Streams py request cached run (eventStream py request cached run) texts ending := by
  obtain ⟨texts, ending, h⟩ := streams py request cached run
  refine ⟨texts, ending, ?_, h⟩
  rw [decoded_body h.plain, h.frames]
  simp

/-- What is sent for a greeting the model answers with one chunk -/
example : (eventStream plainDecoder greeting none ⟨[.ai (.text "hi")], .completed⟩).body =
    "event: metadata\ndata: \x7b\"model\": \"glm-4\", \"cache_hit\": false, \"request_id\": \"r1\"\x7d\n\n" ++
    "event: token\ndata: \x7b\"content\": \"hi\"\x7d\n\n" ++
    "event: done\ndata: \x7b\"model\": \"glm-4\", \"cache_hit\": false, \"request_id\": \"r1\"\x7d\n\n" := by
  decide +kernel

end Chat

end HyChat
