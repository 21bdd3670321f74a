import HyChat.Chat.Stream
import Mathlib.Logic.Function.Basic

/-!
# What the reply cache holds

A completed run always has something to store, because the router replaces an empty content by a
failure text before it asks whether there is one. Which runs may store is therefore a condition on
the stream alone, and along every run of requests that respects it the cache answers with texts of
the model only.

Why the condition is one on the stream. The router stores what the loop over the stream has
collected, or the fallback text, and asks only whether the caller allows storing, whether the
lookup has missed and whether the loop has raised. Whether the model has said anything is not
asked. A run in which the middleware answers with a notice, or the model streams nothing, is
therefore stored like an answer; `NothingToHide` leaves those out, and the theorem says that this
is exactly what has to be left out.

Texts are backed by a run for the same key, not by a run of the same request: that is what a cache
is for. An entry that expires only makes a lookup miss, and an entry that is not there promises
nothing.
-/

set_option autoImplicit false

namespace HyChat

open Lib

namespace Chat

variable (py : Decoder)

/-! ## The content of a completed run -/

/-- The fallback is not empty, which is why there is always something to store. -/
theorem emptyResponseFallback_ne_empty (toolErrors : List String) :
    emptyResponseFallback toolErrors ≠ "" := by
  intro h
  have hlen := congrArg String.length h
  unfold emptyResponseFallback at hlen
  cases toolErrors with
  | nil => exact absurd hlen (by decide)
  | cons e rest =>
    simp only [List.isEmpty_cons, Bool.false_eq_true, ↓reduceIte] at hlen
    rw [String.length_append] at hlen
    have hpos : (toString "查询失败。\n\n原因：").length = 10 := by decide
    rw [hpos] at hlen
    exact absurd hlen (by simp)

/-! ## The loop over the stream -/

/-- **One message.** Either it cannot be read, or the loop goes on. -/
theorem chunk_cases (acc : Collected) (message : Message) :
    (message.Unreadable py ∧ ∃ raised, acc.chunk py message = .error raised) ∨
      (¬ message.Unreadable py ∧ ∃ acc', acc.chunk py message = .ok acc') := by
  cases message with
  | tool content =>
    cases content with
    | blocks xs => exact .inr ⟨by simp [Message.Unreadable], _, rfl⟩
    | text s =>
      cases hl : py.loads s with
      | value parsed =>
        refine .inr ⟨?_, acc.toolError (toolErrorOfJson py parsed), ?_⟩
        · simp [Message.Unreadable, hl]
        · simp [Collected.chunk, toolErrorFromContent, hl, Except.map]
      | decodeError =>
        refine .inr ⟨?_, acc.toolError none, ?_⟩
        · simp [Message.Unreadable, hl]
        · simp [Collected.chunk, toolErrorFromContent, hl, Except.map]
      | raised raised =>
        refine .inl ⟨⟨s, raised, rfl, hl⟩, raised, ?_⟩
        simp [Collected.chunk, toolErrorFromContent, hl, Except.map]
  | _ => exact .inr ⟨by simp [Message.Unreadable], _, rfl⟩

/-- The loop raises at the first message that cannot be read. -/
theorem collectFrom_ending (ending : Ending) (chunks : List Message) (acc : Collected) :
    (collectFrom py ending chunks acc).2 = .raised ↔
      ending = .raised ∨ ∃ message ∈ chunks, message.Unreadable py := by
  induction chunks generalizing acc with
  | nil => simp [collectFrom]
  | cons message chunks ih =>
    simp only [List.mem_cons, exists_eq_or_imp]
    rcases chunk_cases py acc message with ⟨hun, raised, he⟩ | ⟨hread, acc', he⟩
    · simp [collectFrom, he, hun]
    · simp only [collectFrom, he, ih, hread, false_or]

/-- The loop ends with an exception exactly where the condition on the run says so. -/
theorem collect_ending (run : GraphRun) : (collect py run).2 = .raised ↔ run.Raises py :=
  collectFrom_ending py _ _ _

/-- What every message keeps, the loop keeps, however it ends. -/
theorem collectFrom_invariant {I : Collected → Prop}
    (hstep : ∀ acc message acc', I acc → acc.chunk py message = .ok acc' → I acc')
    {ending : Ending} {chunks : List Message} {acc : Collected} (h : I acc) :
    I (collectFrom py ending chunks acc).1 := by
  induction chunks generalizing acc with
  | nil => exact h
  | cons message chunks ih =>
    unfold collectFrom
    cases he : acc.chunk py message with
    | ok acc' => exact ih (hstep _ _ _ h he)
    | error raised => exact h

/-- A message adds at most its own text to what is collected. -/
theorem contentParts_chunk {acc acc' : Collected} {message : Message}
    (h : acc.chunk py message = .ok acc') :
    acc'.contentParts = acc.contentParts ∧ acc'.frames = acc.frames ∨
      ∃ s, message.aiContent = some (.text s) ∧ s ≠ "" ∧
        acc'.contentParts = acc.contentParts ++ [s] ∧ acc'.frames = acc.frames ++ [tokenFrame s] := by
  have htool : ∀ error : Option String, (acc.toolError error).contentParts = acc.contentParts ∧
      (acc.toolError error).frames = acc.frames := by
    intro error
    unfold Collected.toolError
    split
    · split <;> exact ⟨rfl, rfl⟩
    · exact ⟨rfl, rfl⟩
  have hcontent : ∀ content : Option MessageContent, acc.content content = acc' →
      acc'.contentParts = acc.contentParts ∧ acc'.frames = acc.frames ∨
        ∃ s, content = some (.text s) ∧ s ≠ "" ∧
          acc'.contentParts = acc.contentParts ++ [s] ∧
            acc'.frames = acc.frames ++ [tokenFrame s] := by
    intro content hc
    subst hc
    unfold Collected.content
    split
    · rename_i s
      by_cases hs : s = ""
      · simp [hs]
      · exact .inr ⟨s, rfl, hs, by simp [hs]⟩
    · exact .inl ⟨rfl, rfl⟩
  cases message with
  | tool content =>
    simp only [Collected.chunk] at h
    cases he : toolErrorFromContent py content with
    | error raised => simp [he, Except.map] at h
    | ok error =>
      simp only [he, Except.map, Except.ok.injEq] at h
      rw [← h]
      exact .inl (htool error)
  | ai content => exact hcontent _ (by simpa [Collected.chunk] using h)
  | policyViolation message => exact hcontent _ (by simpa [Collected.chunk] using h)
  | other => exact hcontent _ (by simpa [Collected.chunk] using h)

/-- A reply is stored exactly when the caller allows it, the lookup missed and the loop did not
    raise: the content is never empty. -/
theorem stored_isSome_iff (request : StreamRequest) (cached : Option String) (run : GraphRun) :
    (eventStream py request cached run).stored.isSome ↔
      cached = none ∧ request.useCache = true ∧ ¬ run.Raises py := by
  unfold eventStream
  rw [← collect_ending]
  cases cached with
  | some content => simp
  | none =>
    cases hc : collect py run with
    | mk acc ending =>
      cases ending with
      | raised => simp
      | completed =>
        cases hu : request.useCache with
        | false => simp
        | true =>
          by_cases hj : String.join acc.contentParts = ""
          · simp [hj, emptyResponseFallback_ne_empty]
          · simp [hj]

/-- What is collected are texts of the stream's messages. -/
theorem contentParts_collect {run : GraphRun} (h : ¬ run.HasNotice) (hread : ¬ run.Raises py) :
    String.join (collect py run).1.contentParts = run.modelText := by
  have hloop : ∀ (chunks : List Message) (acc : Collected),
      (¬ ∃ message, Message.policyViolation message ∈ chunks) →
      (¬ ∃ message ∈ chunks, message.Unreadable py) →
      String.join (collectFrom py run.ending chunks acc).1.contentParts =
        String.join acc.contentParts ++ (GraphRun.mk chunks .completed).modelText := by
    intro chunks
    induction chunks with
    | nil =>
      intro acc _ _
      simp [collectFrom, GraphRun.modelText]
    | cons c rest ih =>
      intro acc hn hun
      have hrest : ¬ ∃ message, Message.policyViolation message ∈ rest := by
        intro hm
        obtain ⟨message, hm⟩ := hm
        exact hn ⟨message, List.mem_cons_of_mem _ hm⟩
      have hreads : ¬ ∃ message ∈ rest, message.Unreadable py := by
        intro hm
        obtain ⟨message, hm, hu⟩ := hm
        exact hun ⟨message, List.mem_cons_of_mem _ hm, hu⟩
      rcases chunk_cases py acc c with ⟨hbad, -⟩ | ⟨-, acc', he⟩
      · exact absurd ⟨c, List.mem_cons_self, hbad⟩ hun
      simp only [collectFrom, he]
      rw [ih _ hrest hreads]
      cases c with
      | tool content =>
        rcases contentParts_chunk py he with ⟨hparts, -⟩ | ⟨s, hs, -⟩
        · rw [hparts]
          simp [GraphRun.modelText]
        · exact absurd hs (by simp [Message.aiContent])
      | ai content =>
        rcases contentParts_chunk py he with ⟨hparts, -⟩ | ⟨s, hs, hne, hparts, -⟩
        · rw [hparts]
          cases content with
          | blocks xs => simp [GraphRun.modelText]
          | text s =>
            -- only an empty text adds nothing
            by_cases hs : s = ""
            · simp [GraphRun.modelText, hs]
            · simp [Collected.chunk, Message.aiContent, Collected.content, hs] at he
              rw [← he] at hparts
              simp at hparts
        · simp only [Message.aiContent, Option.some.injEq] at hs
          subst hs
          simp [hparts, GraphRun.modelText, String.append_assoc]
      | policyViolation message => exact absurd ⟨message, List.mem_cons_self⟩ hn
      | other =>
        rcases contentParts_chunk py he with ⟨hparts, -⟩ | ⟨s, hs, -⟩
        · rw [hparts]
          simp [GraphRun.modelText]
        · exact absurd hs (by simp [Message.aiContent])
  have hall : ¬ ∃ message ∈ run.chunks, message.Unreadable py := fun hm => hread (.inr hm)
  have := hloop run.chunks ⟨[], [], []⟩ h hall
  simpa [collect, GraphRun.modelText] using this

theorem modelText_ne_empty {run : GraphRun} (h : run.HasModelText) : run.modelText ≠ "" := by
  obtain ⟨s, hs, hne⟩ := h
  intro he
  have hl := congrArg String.toList he
  unfold GraphRun.modelText at hl
  rw [String.toList_join] at hl
  have hnil := List.flatMap_eq_nil_iff.mp hl s (List.mem_filterMap.mpr ⟨_, hs, rfl⟩)
  exact hne (String.toList_inj.mp hnil)

/-- What a run that answers stores is the model's text. -/
theorem stored_of_answers {request : StreamRequest} {cached : Option String} {run : GraphRun}
    {content : String} (h : run.Answers py) (hs : (eventStream py request cached run).stored = some content) :
    content = run.modelText := by
  have hmiss := (stored_isSome_iff py request cached run).mp (by rw [hs]; rfl)
  obtain ⟨rfl, hu, hend⟩ := hmiss
  have hparts := contentParts_collect py h.noNotice hend
  have hne := modelText_ne_empty h.modelText
  rw [← collect_ending] at hend
  unfold eventStream at hs
  cases hc : collect py run with
  | mk acc ending =>
    rw [hc] at hend hparts hs
    cases ending with
    | raised => exact absurd rfl hend
    | completed =>
      simp only at hs hparts
      simp [hparts, hne, hu] at hs
      exact hs.symm

/-! ## Requests that share the cache -/

/-- The `chat:response` entries, the requests that have looked their key up with what they found,
    and the runs of the graph that have been streamed so far, each with the request it was for. -/
structure ReplyCache where
  entries : String → Option String
  asked : List (StreamRequest × Option String)
  streamed : List (StreamRequest × GraphRun)

inductive CacheEvent
  /-- A request looks its key up. -/
  | ask (request : StreamRequest)
  /-- The reply to the request that asked as number `i`, with the run the graph makes if asked. -/
  | reply (i : Nat) (run : GraphRun)
  /-- Redis forgets an entry. -/
  | expire (key : String)

def ReplyCache.empty : ReplyCache := ⟨fun _ => none, [], []⟩

/-- Requests look up, stream and store in any order; entries expire at any time. -/
def replyCache : Lts ReplyCache CacheEvent where
  step s
    | .ask request =>
        let cached := if request.useCache then s.entries request.cacheKey else none
        some { s with asked := s.asked ++ [(request, cached)] }
    | .reply i run =>
        match s.asked[i]? with
        | none => none
        | some (request, cached) =>
            let streamed := if cached.isSome then s.streamed else s.streamed ++ [(request, run)]
            match (eventStream py request cached run).stored with
            | some content =>
                some { s with entries := Function.update s.entries request.cacheKey (some content)
                              streamed := streamed }
            | none => some { s with streamed := streamed }
    | .expire key => some { s with entries := Function.update s.entries key none }

/-- The request reads from the cache or does not use it, or the loop over the stream raises, or the
    model streams a text and the middleware no notice. -/
def NothingToHide (request : StreamRequest) (cached : Option String) (run : GraphRun) : Prop :=
  cached.isSome ∨ request.useCache = false ∨ run.Raises py ∨
    (run.HasModelText ∧ ¬ run.HasNotice)

/-- Every reply of the run has nothing to hide. -/
def RepliesHonestly (s : ReplyCache) (e : CacheEvent) : Prop :=
  ∀ i run, e = .reply i run → ∀ a ∈ s.asked[i]?, NothingToHide py a.1 a.2 run

/-- The text was streamed by the model in a completed run for the same key. -/
def ReplyCache.Backs (s : ReplyCache) (key content : String) : Prop :=
  ∃ earlier ∈ s.streamed, earlier.1.cacheKey = key ∧ earlier.2.Answers py ∧
    content = earlier.2.modelText

/-- Every entry, and everything a lookup has found, is backed. -/
structure ReplyCache.Honest (s : ReplyCache) : Prop where
  entry : ∀ key content, s.entries key = some content → s.Backs py key content
  found : ∀ a ∈ s.asked, ∀ content, a.2 = some content → s.Backs py a.1.cacheKey content

theorem ReplyCache.Backs.mono {s s' : ReplyCache} {key content : String} (h : s.Backs py key content)
    (hs : ∀ e ∈ s.streamed, e ∈ s'.streamed) : s'.Backs py key content := by
  obtain ⟨earlier, he, rest⟩ := h
  exact ⟨earlier, hs earlier he, rest⟩

theorem stores_iff (request : StreamRequest) (cached : Option String) (run : GraphRun) :
    ((eventStream py request cached run).stored.isSome → run.Answers py) ↔
      NothingToHide py request cached run := by
  rw [stored_isSome_iff]
  constructor
  · intro h
    cases cached with
    | some c => exact .inl rfl
    | none =>
      cases hu : request.useCache with
      | false => exact .inr (.inl hu)
      | true =>
        by_cases he : run.Raises py
        · exact .inr (.inr (.inl he))
        · have ha := h ⟨rfl, hu, he⟩
          exact .inr (.inr (.inr ⟨ha.modelText, ha.noNotice⟩))
  · intro h hst
    obtain ⟨rfl, hu, he⟩ := hst
    rcases h with h | h | h | ⟨ht, hn⟩
    · exact absurd h (by simp)
    · exact absurd (hu.symm.trans h) (by decide)
    · exact absurd h he
    · exact ⟨he, ht, hn⟩

theorem Honest.step {s s' : ReplyCache} {e : CacheEvent} (h : s.Honest py) (hok : RepliesHonestly py s e)
    (hs : (replyCache py).step s e = some s') : s'.Honest py := by
  cases e with
  | ask request =>
    simp only [replyCache, Option.some.injEq] at hs
    subst hs
    refine ⟨h.entry, ?_⟩
    intro a ha content hc
    rcases List.mem_append.mp ha with ha | ha
    · exact h.found a ha content hc
    · rw [List.mem_singleton] at ha
      subst ha
      -- what a lookup finds is an entry, so it is backed
      cases hu : request.useCache with
      | false => simp [hu] at hc
      | true => exact h.entry _ _ (by simpa [hu] using hc)
  | expire key =>
    simp only [replyCache, Option.some.injEq] at hs
    subst hs
    refine ⟨?_, h.found⟩
    intro k content hc
    replace hc : Function.update s.entries key none k = some content := hc
    -- an entry that is forgotten promises nothing
    by_cases hk : k = key
    · subst hk
      simp at hc
    · rw [Function.update_of_ne hk] at hc
      exact h.entry k content hc
  | reply i run =>
    simp only [replyCache] at hs
    cases ha : s.asked[i]? with
    | none => simp [ha] at hs
    | some a =>
      obtain ⟨request, cached⟩ := a
      have hhonest := hok i run rfl _ ha
      rw [ha] at hs
      simp only at hs
      cases hst : (eventStream py request cached run).stored with
      | none =>
        simp only [hst, Option.some.injEq] at hs
        subst hs
        -- nothing is stored; at most a run more has been streamed
        have hmono : ∀ e ∈ s.streamed,
            e ∈ if cached.isSome then s.streamed else s.streamed ++ [(request, run)] := by
          intro e he
          split
          · exact he
          · exact List.mem_append_left _ he
        exact ⟨fun k c hc => (h.entry k c hc).mono py hmono,
          fun a ha c hc => (h.found a ha c hc).mono py hmono⟩
      | some stored =>
        simp only [hst, Option.some.injEq] at hs
        subst hs
        have hsome : (eventStream py request cached run).stored.isSome := by rw [hst]; rfl
        -- what is stored is what the model has streamed, since the run has nothing to hide
        have hans := (stores_iff py request cached run).mpr hhonest hsome
        obtain ⟨rfl, -, -⟩ := (stored_isSome_iff py request cached run).mp hsome
        have hmono : ∀ e ∈ s.streamed, e ∈ s.streamed ++ [(request, run)] :=
          fun e he => List.mem_append_left _ he
        refine ⟨?_, fun a ha c hc => (h.found a ha c hc).mono py hmono⟩
        intro k content hc
        replace hc : Function.update s.entries request.cacheKey (some stored) k = some content := hc
        by_cases hk : k = request.cacheKey
        · subst hk
          simp only [Function.update_self, Option.some.injEq] at hc
          subst hc
          exact ⟨(request, run), List.mem_append_right _ List.mem_cons_self, rfl, hans,
            stored_of_answers py hans hst⟩
        · rw [Function.update_of_ne hk] at hc
          exact (h.entry k content hc).mono py hmono

/-- **A reply is stored without a model's answer unless its stream has nothing to hide.** And while
    no stream has anything to hide, whatever a lookup finds was streamed by the model, in a
    completed run without notices, for a request with the same key. -/
theorem reply_cache_holds_answers (py : Decoder) :
    (∀ (request : StreamRequest) (cached : Option String) (run : GraphRun),
      ((eventStream py request cached run).stored.isSome → run.Answers py) ↔
        NothingToHide py request cached run) ∧
    ∀ s, (replyCache py).Reach (RepliesHonestly py) .empty s →
      ∀ a ∈ s.asked, ∀ content, a.2 = some content →
        ∃ earlier ∈ s.streamed, earlier.1.cacheKey = a.1.cacheKey ∧ earlier.2.Answers py ∧
          content = earlier.2.modelText := by
  refine ⟨stores_iff py, ?_⟩
  intro s hs a ha content hc
  have hhonest : s.Honest py := hs.invariant
    ⟨fun _ _ h => absurd h (by simp [ReplyCache.empty]), fun a ha => absurd ha (by simp [ReplyCache.empty])⟩
    fun s e s' h hok hst => Honest.step py h hok hst
  exact hhonest.found a ha content hc

/-- What is stored for a request is what the next one with the same key finds. -/
theorem reach_next (request : StreamRequest) (run : GraphRun)
    (ok : ReplyCache → CacheEvent → Prop) {content : String} (hu : request.useCache = true)
    (hst : (eventStream py request none run).stored = some content)
    (hok : ∀ s, s.asked = [(request, none)] → ok s (.reply 0 run))
    (hask : ∀ s, ok s (.ask request)) :
    ∃ s, (replyCache py).Reach ok .empty s ∧ s.asked = [(request, none), (request, some content)] ∧
      s.streamed = [(request, run)] := by
  let asked : ReplyCache := ⟨fun _ => none, [(request, none)], []⟩
  let replied : ReplyCache :=
    ⟨Function.update (fun _ => none) request.cacheKey (some content), [(request, none)],
      [(request, run)]⟩
  have h₁ : (replyCache py).step .empty (.ask request) = some asked := by
    simp [replyCache, ReplyCache.empty, asked]
  have h₂ : (replyCache py).step asked (.reply 0 run) = some replied := by
    simp [replyCache, asked, hst, replied]
  have h₃ : (replyCache py).step replied (.ask request) =
      some { replied with asked := [(request, none), (request, some content)] } := by
    simp [replyCache, replied, hu]
  have hreach := ((Lts.Reach.start.step _ (hask _) h₁).step _ (hok _ rfl) h₂).step _ (hask _) h₃
  exact ⟨_, hreach, rfl, rfl⟩

def plainDecoder : Decoder := ⟨fun _ => .decodeError, fun _ => ""⟩

def greeting : StreamRequest := ⟨"u1", "glm-4", [⟨"user", "hello"⟩], true, "r1"⟩

/-- The rate-limit notice the first request is answered with is what the second one reads. -/
theorem reply_cache_serves_notice :
    ¬ ∀ s, (replyCache plainDecoder).Reach Lts.Anything .empty s →
      ∀ a ∈ s.asked, ∀ content, a.2 = some content →
        ∃ earlier ∈ s.streamed, earlier.1.cacheKey = a.1.cacheKey ∧ earlier.2.Answers plainDecoder ∧
          content = earlier.2.modelText := by
  intro h
  have hst : (eventStream plainDecoder greeting none
      ⟨[.policyViolation "请求过于频繁：每分钟最多 3 次"], .completed⟩).stored =
        some (policyViolationContent "请求过于频繁：每分钟最多 3 次") := by decide
  obtain ⟨s, hreach, hasked, hstreamed⟩ := reach_next plainDecoder greeting _ Lts.Anything rfl hst
    (fun _ _ => trivial) (fun _ => trivial)
  obtain ⟨earlier, he, -, ha, -⟩ := h s hreach _ (by rw [hasked]; exact .tail _ (.head _)) _ rfl
  rw [hstreamed, List.mem_singleton] at he
  subst he
  exact ha.noNotice ⟨_, List.mem_cons_self⟩

/-- A greeting the model answers is found by the next request. -/
theorem reply_cache_holds_answers_greeting :
    ∃ s, (replyCache plainDecoder).Reach (RepliesHonestly plainDecoder) .empty s ∧
      ∃ earlier ∈ s.streamed, earlier.1.cacheKey = greeting.cacheKey ∧ earlier.2.Answers plainDecoder ∧
        "hi" = earlier.2.modelText := by
  have hst : (eventStream plainDecoder greeting none ⟨[.ai (.text "hi")], .completed⟩).stored =
      some "hi" := by decide
  obtain ⟨s, hreach, hasked, -⟩ := reach_next plainDecoder greeting _ (RepliesHonestly plainDecoder) rfl hst
    (by
      intro s hs i run he a ha
      cases he
      rw [hs] at ha
      cases ha
      refine .inr (.inr (.inr ⟨⟨"hi", List.mem_cons_self, by decide⟩, ?_⟩))
      intro hn
      obtain ⟨message, hm⟩ := hn
      exact absurd hm (by simp))
    (by
      intro s i run he
      cases he)
  exact ⟨s, hreach, (reply_cache_holds_answers plainDecoder).2 s hreach (greeting, some "hi")
    (by rw [hasked]; exact .tail _ (.head _)) "hi" rfl⟩

end Chat

end HyChat
