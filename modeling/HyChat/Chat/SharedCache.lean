import HyChat.Chat.ModelCalls
import HyChat.Chat.CacheIdentity

/-!
# Calls that share the response cache

Any number of calls of any users run at the same time, one statement after another in any order,
each of them may die, and entries of the cache come and go. What a call finds there was stored by a
call that has built the same key, and since the user and the model are part of what a key is a
digest of, **no call answers with what was made for another user** (`answers_of_same_user`).

Every call has a history, the statements it has issued and what was answered. Where a text comes
from is read off these histories and not off the cache: an entry may have expired since it was
found, and the same text may have been stored twice. So `Authored` asks the author's own history
for all of it, the key it has built, the text it was given and charged for, and the statement that
stores it.

A statement that stores may come to nothing, and it may raise after it was done. What it has
answered is therefore not part of `Authored`. Nothing here says that an entry is found: with a
cache that loses every write each call answers what it has made itself. That the hash tells the
requests apart is a hypothesis.

Why the calls are interleaved statement by statement. A call is a program with a hole for each
answer; the environment fills the hole from the cache, from the model or with an exception, in any
order over all calls. `Provenance` is the invariant: every entry has an author, and every log is
one the program can have produced. `Provenance.statement` is the one step lemma, and uses of the
order of statements in a call exactly what `statements_due` has shown.

What the hypothesis on the hash is for. A key is a digest of the user, the model and the request,
so two calls with the same key have the same user if the digest tells the requests apart; without
that nothing could be said. It is asked of all texts that a hash may be given, which is more than
the calls of one run need.
-/

set_option autoImplicit false

namespace HyChat

open Lib

namespace Chat

namespace SharedCache

open ResponseLocks Suite

/-! ## What a call answers -/

/-- The response was found under the key, or the model has just given it. -/
def Given (log : List LockEvent) (cacheKey : Option String) (response : ModelResponse) : Prop :=
  ⟨.handler, .ok response⟩ ∈ log ∨ ∃ key, cacheKey = some key ∧ Found log key response

/-- What was given stays given. -/
theorem Given.mono {log log' : List LockEvent} {cacheKey : Option String} {response : ModelResponse}
    (h : Given log cacheKey response) (hsub : ∀ e ∈ log, e ∈ log') :
    Given log' cacheKey response :=
  h.imp (hsub _) fun ⟨key, hkey, hfound⟩ => ⟨key, hkey, found_of_mem hsub hfound⟩

section

variable {l l' : Option CacheLock} {log : List LockEvent} {p : Prepared} {response : ModelResponse}

theorem answerCached_exits {cached : ModelResponse}
    (h : Exits (answerCached p cached) l log (.ok response) l') : response = cached := by
  obtain ⟨_, _, _, _, -, -, h⟩ := exits_bind_ok h
  obtain ⟨-, hcached, -⟩ := exits_pure h
  exact Except.ok.inj hcached

theorem askModel_exits {handle : Code ModelResponse} (hhandle : Handling handle)
    (h : Exits (askModel handle p) l log (.ok response) l') : ⟨.handler, .ok response⟩ ∈ log := by
  obtain ⟨_, _, _, _, rfl, -, h⟩ := exits_bind_ok h
  obtain ⟨_, _, _, _, rfl, -, h⟩ := exits_bind_ok h
  obtain ⟨_, _, _, _, rfl, hhandled, h⟩ := exits_bind_ok h
  obtain ⟨_, _, _, _, rfl, -, h⟩ := exits_bind_ok h
  obtain ⟨_, _, _, _, rfl, -, h⟩ := exits_bind_ok h
  obtain ⟨-, hresponse, -⟩ := exits_pure h
  cases hresponse
  have hanswer := (hhandle.exits hhandled).1
  simp [hanswer]

/-- What the `try` block answers was found or given. -/
theorem answer_exits {wait : Option String → Code (Option ModelResponse)}
    {handle : Code ModelResponse} (hwait : Waiting wait) (hhandle : Handling handle)
    (h : Exits (answer wait handle p) l log (.ok response) l') : Given log p.cacheKey response := by
  obtain ⟨first, cached, _, _, rfl, hget, h⟩ := exits_bind_ok h
  cases cached with
  | some cached =>
    obtain rfl := answerCached_exits h
    exact .inr ((getCachedResponse_exits hget).hit _ rfl |>.imp fun _ hk =>
      ⟨hk.1, found_append.mpr (.inl hk.2)⟩)
  | none =>
    obtain ⟨second, lock, _, _, rfl, -, h⟩ := exits_bind_ok h
    obtain ⟨third, again, _, last, rfl, hlook, h⟩ := exits_bind_ok h
    have hagain : LookedUp p.cacheKey third again := by
      unfold lookAgain at hlook
      split at hlook
      · exact hwait.exits hlook
      · exact getCachedResponse_exits hlook
      · obtain ⟨rfl, hnone, -⟩ := exits_pure hlook
        cases hnone
        exact lookedUp_nil
    cases again with
    | some again =>
      obtain rfl := answerCached_exits h
      obtain ⟨key, hkey, hfound⟩ := hagain.hit _ rfl
      exact .inr ⟨key, hkey, found_of_mem (fun e he => by simp [he]) hfound⟩
    | none =>
      have hanswer := askModel_exits hhandle h
      exact .inl (by simp [hanswer])

end

/-- The policy has refused the call. -/
def Refused (response : ModelResponse) : Prop := ∃ message, response = policyViolationResponse message

/-- What the middleware answers -/
theorem modelCall_exits {wait : Option String → Code (Option ModelResponse)}
    {handle : Code ModelResponse} (hwait : Waiting wait) (hhandle : Handling handle)
    {request : ModelRequest} {l l' : Option CacheLock} {log : List LockEvent}
    {response : ModelResponse} (h : Exits (modelCall wait handle request) l log (.ok response) l') :
    Refused response ∨ ⟨.handler, .ok response⟩ ∈ log ∨ ∃ userId selected key,
      request.userId = some userId ∧ Built log userId selected [] key ∧ Found log key response := by
  obtain ⟨first, p, _, _, rfl, hprepared, h⟩ := exits_bind_ok h
  cases p with
  | inl refusal =>
    obtain ⟨-, hresponse, -⟩ := exits_pure h
    cases hresponse
    rcases exits_tryExcept hprepared with hprepared | ⟨_, e, _, _, s, -, -, hs, hprepared⟩
    · obtain ⟨_, _, _, _, -, -, hpure⟩ := exits_bind_ok hprepared
      cases (exits_pure hpure).2.1
    · cases e with
      | policyViolation message =>
        cases hs
        cases (exits_pure hprepared).2.1
        exact .inl ⟨message, rfl⟩
      | exception text => cases hs
      | base name => cases hs
  | inr p =>
    obtain ⟨body, res, _, last, done, rfl, hbody, -, hout⟩ := exits_tryFinally h
    have hanswered : res = .ok response := by
      cases done with
      | ok u => exact hout.symm
      | error e => cases hout
    subst hanswered
    rcases exits_tryExcept hbody with hbody | ⟨_, e, _, _, s, -, -, hs, hbody⟩
    · rcases answer_exits hwait hhandle hbody with hanswer | ⟨key, hkey, hfound⟩
      · exact .inr (.inl (by simp [hanswer]))
      · obtain ⟨userId, huser, hbuilt⟩ := (prepared_exits hprepared).built key hkey
        refine .inr (.inr ⟨userId, p.selected, key, huser, List.mem_append_left _ hbuilt, ?_⟩)
        exact found_of_mem (fun e he => by simp [he]) hfound
    · cases e with
      | policyViolation message =>
        cases hs
        obtain ⟨_, _, _, _, -, -, hpure⟩ := exits_bind_ok hbody
        cases (exits_pure hpure).2.1
        exact .inl ⟨message, rfl⟩
      | exception text => exact (exits_onException_raise (e := .exception text) hs hbody).elim
      | base name => cases hs

/-- What the mock graph answers -/
theorem mockChat_exits {state : MockState} {l l' : Option CacheLock} {log : List LockEvent}
    {response : ModelResponse} (h : Exits (mockChat state) l log (.ok response) l') :
    (∃ memory, response = .reply (mockText state ⟨memory, none, none⟩) false ∧
        (state.userId = none → memory = []) ∧
          ∀ userId, state.userId = some userId → Remembered log userId memory) ∨
      ∃ userId memory key found, state.userId = some userId ∧
        Built log userId state.selected memory key ∧ Found log key found ∧
          response = .reply found.text true := by
  obtain ⟨_, _, _, rest, rfl, hheld, h⟩ := exits_bind_ok h
  obtain ⟨_, _, _, _, -, -, h⟩ := exits_bind_ok h
  obtain ⟨_, _, _, _, -, -, h⟩ := exits_bind_ok h
  cases (exits_pure h).2.1
  obtain ⟨first, looked, _, _, rfl, hsession, h⟩ := exits_bind_ok hheld
  obtain ⟨_, _, _, _, -, -, h⟩ := exits_bind_ok h
  obtain ⟨_, _, _, _, -, -, h⟩ := exits_bind_ok h
  cases (exits_pure h).2.1
  obtain ⟨hlooked, -⟩ := mockSession_exits hsession
  obtain ⟨memory, cacheKey, cached⟩ := looked
  cases cached with
  | none =>
    refine .inl ⟨memory, rfl, hlooked.nobody, fun userId hu => ?_⟩
    exact (hlooked.remembered userId hu).mono fun e he => by simp [he]
  | some text =>
    obtain ⟨key, found, hkey, hfound, rfl⟩ := hlooked.found text rfl
    obtain ⟨userId, huser, hbuilt, -⟩ := hlooked.built key hkey
    refine .inr ⟨userId, memory, key, found, huser, ?_, ?_, rfl⟩
    · exact List.mem_append_left _ (List.mem_append_left _ hbuilt)
    · exact found_of_mem (fun e he => by simp [he]) hfound

/-! ## The cache -/

/-- Whom the call is for; an empty user is none. -/
def userOf : ChatCall → Option String
  | .wrapModelCall request => request.userId
  | .awrapModelCall request => request.userId
  | .mockChat state => state.userId

/-- The call asks no model. -/
def isMock : ChatCall → Bool
  | .mockChat _ => true
  | _ => false

/-- The memories among the parts of the mock graph's key -/
def memoryContext (memory : List (String × String)) : Json :=
  .obj [("memory", .obj (memory.map fun (key, value) => (key, .str value)))]

/-- What a call builds its key of -/
def keyRequest (call : ChatCall) (messages : List CacheKey.Message)
    (system : Option CacheKey.Message) (userId selected : String)
    (memory : List (String × String)) : CacheKey.Request :=
  if isMock call then ⟨some userId, selected, messages, none, memoryContext memory⟩
  else ⟨some userId, selected, messages, system, .null⟩

/-- The entries that have not expired, and what every call has issued -/
structure SharedStore (ι : Type) where
  cache : String → Option String
  past : ι → List LockEvent

/-- What the environment chooses: what a function answers or raises, whether a lookup still comes to
    the entry, whether an entry is written, and what the messages of the request are -/
structure Choice where
  answer : (callee : Callee) → Except Exn (Answer callee)
  shown : Bool
  written : Bool
  messages : List CacheKey.Message
  system : Option CacheKey.Message

variable {ι : Type} (hexdigest : CacheKey.Hash) (py : Decoder)

/-- `{"content": content}` -/
def contentValue (content : String) : Json := .obj [("content", .str content)]

def SharedStore.look (s : SharedStore ι) (ch : Choice) (key : String) : Option Json :=
  if ch.shown then (s.cache key).map contentValue else none

def reply (call : ChatCall) (s : SharedStore ι) (ch : Choice) :
    (callee : Callee) → Option (Except Exn (Answer callee))
  | .getJson key => some ((ch.answer (.getJson key)).map fun _ => (s.look ch key).getD .null)
  | .waitForJson key => some ((ch.answer (.waitForJson key)).map fun _ => s.look ch key)
  | .buildCacheKey userId selected memory =>
      match ch.answer (.buildCacheKey userId selected memory) with
      | .error e => some (.error e)
      | .ok _ =>
          (CacheKey.buildCacheKey hexdigest py
            (keyRequest call ch.messages ch.system userId selected memory)).map .ok
  | callee => some (ch.answer callee)

/-- A write may also come to nothing, or raise after it was done. -/
def written (cache : String → Option String) (ch : Choice) : Callee → String → Option String
  | .setJson key content => if ch.written then Function.update cache key (some content) else cache
  | _ => cache

variable [DecidableEq ι]

def SharedStore.record (s : SharedStore ι) (i : ι) (cache : String → Option String)
    (e : LockEvent) : SharedStore ι :=
  ⟨cache, Function.update s.past i (s.past i ++ [e])⟩

/-- The calls and the cache; a call that dies leaves the cache as it is. -/
def sharedCache (call : ι → ChatCall) : Machine (raising Exn Answer) (SharedStore ι) ι Choice where
  exec i callee ch s := (reply hexdigest py (call i) s ch callee).map fun r =>
    (r, s.record i (written s.cache ch callee) ⟨callee, r⟩)
  halt _ s := s

/-- The cache is empty and no call has begun. -/
def start (call : ι → ChatCall) : Config (raising Exn Answer) (SharedStore ι) ι :=
  ⟨⟨fun _ => none, fun _ => []⟩, fun i => ((call i).run none).bind fun _ => .ret ()⟩

/-! ## Where an entry comes from -/

/-- The call is for the user, has made the content, and has stored it under the key, which it has
    built for the user and the model. The middleware was given the content by the model and has
    charged for it; the mock graph has made it of the memories it has read. -/
structure Authored (call : ChatCall) (past : List LockEvent) (userId selected key content : String) :
    Prop where
  user : userOf call = some userId
  stored : ∃ written, ⟨.setJson key content, written⟩ ∈ past
  made : ∃ memory, Built past userId selected memory key ∧
    match call with
    | .mockChat state =>
        Remembered past userId memory ∧ content = mockText state ⟨memory, some key, none⟩
    | _ => ∃ cacheHit total, ⟨.handler, .ok (.reply content cacheHit)⟩ ∈ past ∧
        ⟨.recordTokenUsage userId total, .ok ()⟩ ∈ past

theorem Authored.append {call : ChatCall} {past rest : List LockEvent}
    {userId selected key content : String} (h : Authored call past userId selected key content) :
    Authored call (past ++ rest) userId selected key content := by
  obtain ⟨memory, hbuilt, hmade⟩ := h.made
  refine ⟨h.user, h.stored.imp fun _ => List.mem_append_left rest, memory,
    List.mem_append_left _ hbuilt, ?_⟩
  cases call with
  | mockChat state => exact ⟨hmade.1.mono fun _ => List.mem_append_left rest, hmade.2⟩
  | wrapModelCall request =>
    obtain ⟨cacheHit, total, hanswer, hcharged⟩ := hmade
    exact ⟨cacheHit, total, List.mem_append_left _ hanswer, List.mem_append_left _ hcharged⟩
  | awrapModelCall request =>
    obtain ⟨cacheHit, total, hanswer, hcharged⟩ := hmade
    exact ⟨cacheHit, total, List.mem_append_left _ hanswer, List.mem_append_left _ hcharged⟩

/-- **Who stores has made what is stored.** -/
theorem authored_of_due {call : ChatCall} {past : List LockEvent} {key content : String}
    (h : call.Due past (.setJson key content)) (answered : Except Exn Bool) :
    ∃ userId selected,
      Authored call (past ++ [⟨.setJson key content, answered⟩]) userId selected key content := by
  have hstored : ⟨.setJson key content, answered⟩ ∈
      past ++ [(⟨.setJson key content, answered⟩ : LockEvent)] :=
    List.mem_append_right _ List.mem_cons_self
  have hbefore : ∀ e ∈ past, e ∈ past ++ [(⟨.setJson key content, answered⟩ : LockEvent)] :=
    fun _ => List.mem_append_left _
  cases call with
  | mockChat state =>
    obtain ⟨-, -, userId, memory, huser, hbuilt, hremembered, -, htext⟩ := h
    exact ⟨userId, state.selected, huser, ⟨answered, hstored⟩, memory, hbefore _ hbuilt,
      hremembered.mono hbefore, htext⟩
  | wrapModelCall request =>
    obtain ⟨-, -, userId, selected, total, cacheHit, huser, hbuilt, hanswer, hcharged⟩ := h
    exact ⟨userId, selected, huser, ⟨answered, hstored⟩, [], hbefore _ hbuilt, cacheHit, total,
      hbefore _ hanswer, hbefore _ hcharged⟩
  | awrapModelCall request =>
    obtain ⟨-, -, userId, selected, total, cacheHit, huser, hbuilt, hanswer, hcharged⟩ := h
    exact ⟨userId, selected, huser, ⟨answered, hstored⟩, [], hbefore _ hbuilt, cacheHit, total,
      hbefore _ hanswer, hbefore _ hcharged⟩

/-- Some call has made the content and stored it under the key. -/
def HasAuthor (call : ι → ChatCall) (s : SharedStore ι) (key content : String) : Prop :=
  ∃ j userId selected, Authored (call j) (s.past j) userId selected key content

/-- What holds between any two statements -/
structure Provenance (call : ι → ChatCall) (s : SharedStore ι) : Prop where
  keyed : ∀ i userId selected memory key, Built (s.past i) userId selected memory key →
    ∃ messages system, CacheKey.buildCacheKey hexdigest py
      (keyRequest (call i) messages system userId selected memory) = some key
  cached : ∀ key content, s.cache key = some content → HasAuthor call s key content
  found : ∀ i key response, Found (s.past i) key response → HasAuthor call s key response.text

variable {hexdigest py} {call : ι → ChatCall} {s s' : SharedStore ι} {i : ι}

omit [DecidableEq ι] in
/-- What a lookup has come to is in the cache. -/
theorem look_eq_some {ch : Choice} {key : String} {value : Json} (h : s.look ch key = some value) :
    ∃ content, s.cache key = some content ∧ value = contentValue content := by
  unfold SharedStore.look at h
  split at h
  · obtain ⟨content, hcontent, rfl⟩ := Option.map_eq_some_iff.mp h
    exact ⟨content, hcontent, rfl⟩
  · cases h

theorem response_of_content {content : String} {response : ModelResponse}
    (h : cachedResponseFromValue (contentValue content) = some response) :
    response.text = content := by
  simp only [contentValue, cachedResponseFromValue, List.lookup_cons_self] at h
  split at h
  · cases h
  · rw [← Option.some.inj h]
    rfl

/-- **A statement, inverted.** -/
theorem sem_cases {callee : Callee} {r : Except Exn (Answer callee)}
    (h : (sharedCache hexdigest py call).sem i callee s r s') :
    ∃ ch, reply hexdigest py (call i) s ch callee = some r ∧
      s' = s.record i (written s.cache ch callee) ⟨callee, r⟩ := by
  obtain ⟨ch, hch⟩ := h
  obtain ⟨r', hr', hpair⟩ := Option.map_eq_some_iff.mp hch
  cases hpair
  exact ⟨ch, hr', rfl⟩

theorem recording : (sharedCache hexdigest py call).Recording SharedStore.past := by
  refine ⟨fun h => ?_, fun _ _ => rfl⟩
  obtain ⟨ch, -, rfl⟩ := sem_cases h
  rfl

/-- A statement that is recorded is in the call's history. -/
theorem mem_past_record {cache : String → Option String} {e e' : LockEvent} {j : ι}
    (h : e' ∈ (s.record i cache e).past j) : e' ∈ s.past j ∨ (j = i ∧ e' = e) := by
  rcases eq_or_ne j i with rfl | hj
  · simp only [SharedStore.record, Function.update_self, List.mem_append, List.mem_singleton] at h
    exact h.imp_right fun he => ⟨rfl, he⟩
  · simp only [SharedStore.record, Function.update_of_ne hj] at h
    exact .inl h

theorem past_record {cache : String → Option String} {e : LockEvent} (j : ι) :
    ∃ rest, (s.record i cache e).past j = s.past j ++ rest := by
  rcases eq_or_ne j i with rfl | hj
  · exact ⟨[e], by simp only [SharedStore.record, Function.update_self]⟩
  · exact ⟨[], by simp only [SharedStore.record, Function.update_of_ne hj, List.append_nil]⟩

/-- An author stays one. -/
theorem HasAuthor.record {cache : String → Option String} {e : LockEvent} {key content : String}
    (h : HasAuthor call s key content) : HasAuthor call (s.record i cache e) key content := by
  obtain ⟨j, userId, selected, hj⟩ := h
  obtain ⟨rest, hrest⟩ := past_record (s := s) (i := i) (e := e) j
  exact ⟨j, userId, selected, by rw [hrest]; exact hj.append⟩

omit [DecidableEq ι] in
/-- What a key that has just been built was built of -/
theorem keyed_of_reply {ch : Choice} {userId selected key : String}
    {memory : List (String × String)}
    (h : reply hexdigest py (call i) s ch (.buildCacheKey userId selected memory) =
      some (.ok key)) : ∃ messages system, CacheKey.buildCacheKey hexdigest py
      (keyRequest (call i) messages system userId selected memory) = some key := by
  simp only [reply] at h
  split at h
  · cases h
  · obtain ⟨key', hkey, hok⟩ := Option.map_eq_some_iff.mp h
    cases hok
    exact ⟨ch.messages, ch.system, hkey⟩

omit [DecidableEq ι] in
/-- A lookup that has just found something found an entry. -/
theorem cached_of_reply {ch : Choice} {key : String} {response : ModelResponse} {e : LockEvent}
    (h : reply hexdigest py (call i) s ch e.1 = some e.2)
    (hfound : Found [e] key response) : s.cache key = some response.text := by
  obtain ⟨value, hmem | hmem, hvalue⟩ := hfound
  · obtain rfl := List.mem_singleton.mp hmem
    simp only [reply, Option.some.injEq] at h
    cases ha : ch.answer (.getJson key) with
    | error err => rw [ha] at h; cases h
    | ok a =>
      rw [ha] at h
      cases hlook : s.look ch key with
      | none =>
        rw [hlook] at h
        cases h
        cases hvalue
      | some found =>
        rw [hlook] at h
        cases h
        obtain ⟨content, hcontent, rfl⟩ := look_eq_some hlook
        rw [hcontent, response_of_content hvalue]
  · obtain rfl := List.mem_singleton.mp hmem
    simp only [reply, Option.some.injEq] at h
    cases ha : ch.answer (.waitForJson key) with
    | error err => rw [ha] at h; cases h
    | ok a =>
      rw [ha] at h
      obtain ⟨content, hcontent, rfl⟩ := look_eq_some (Except.ok.inj h)
      rw [hcontent, response_of_content hvalue]

/-- **One statement that is due** keeps what is known about where entries come from. -/
theorem Provenance.statement {callee : Callee} {r : Except Exn (Answer callee)}
    (h : Provenance hexdigest py call s) (hdue : (call i).Due (s.past i) callee)
    (hsem : (sharedCache hexdigest py call).sem i callee s r s') :
    Provenance hexdigest py call s' := by
  obtain ⟨ch, hreply, rfl⟩ := sem_cases hsem
  refine ⟨fun j userId selected memory key hbuilt => ?_, fun key content hcached => ?_,
    fun j key response hfound => ?_⟩
  · rcases mem_past_record hbuilt with hbuilt | ⟨rfl, he⟩
    · exact h.keyed j userId selected memory key hbuilt
    · cases he
      exact keyed_of_reply hreply
  · have hold : s.cache key = some content →
        HasAuthor call (s.record i (written s.cache ch callee) ⟨callee, r⟩) key content :=
      fun hcached => (h.cached key content hcached).record
    cases callee with
    | setJson key' content' =>
      simp only [SharedStore.record, written] at hcached
      split at hcached
      · by_cases hk : key = key'
        · subst hk
          rw [Function.update_self] at hcached
          cases hcached
          obtain ⟨userId, selected, hauthored⟩ := authored_of_due hdue r
          refine ⟨i, userId, selected, ?_⟩
          simpa only [SharedStore.record, Function.update_self] using hauthored
        · rw [Function.update_of_ne hk] at hcached
          exact hold hcached
      · exact hold hcached
    | _ => exact hold hcached
  · have hsplit : Found (s.past j) key response ∨ Found [(⟨callee, r⟩ : LockEvent)] key response := by
      obtain ⟨value, hmem, hvalue⟩ := hfound
      rcases hmem with hmem | hmem
      · exact (mem_past_record hmem).imp (fun hm => ⟨value, .inl hm, hvalue⟩)
          fun he => ⟨value, .inl (List.mem_singleton.mpr he.2), hvalue⟩
      · exact (mem_past_record hmem).imp (fun hm => ⟨value, .inr hm, hvalue⟩)
          fun he => ⟨value, .inr (List.mem_singleton.mpr he.2), hvalue⟩
    rcases hsplit with hfound | hfound
    · exact (h.found j key response hfound).record
    · exact (h.cached key response.text (cached_of_reply hreply hfound)).record

omit [DecidableEq ι] in
/-- An empty cache has no entries to account for. -/
theorem provenance_start : Provenance hexdigest py call (start call).store := by
  refine ⟨fun _ _ _ _ _ hbuilt => (by cases hbuilt), fun _ _ hcached => (by cases hcached), ?_⟩
  rintro _ _ _ ⟨_, hmem | hmem, -⟩
  · cases hmem
  · cases hmem

/-- **Provenance** holds in every reachable state, whatever the order of the statements. -/
theorem provenance_steps {c : Config (raising Exn Answer) (SharedStore ι) ι}
    (hc : (sharedCache hexdigest py call).Steps (start call) c) :
    Provenance hexdigest py call c.store := by
  refine recording.invariant (P := fun i => (call i).Due) hc (fun i => ?_) provenance_start
    (fun _ _ h => h) fun i callee s r s' h hdue hsem => h.statement hdue hsem
  exact Prog.Guarded.bind (call_guarded (call i)) fun _ _ _ => trivial

/-! ## Whose the entries are -/

/-- Equal keys are of one user and one model, and of one extra context. -/
theorem owner_of_key (hinj : Function.Injective hexdigest) {r r' : CacheKey.Request} {key : String}
    (hkey : CacheKey.buildCacheKey hexdigest py r = some key)
    (hkey' : CacheKey.buildCacheKey hexdigest py r' = some key) :
    r.userId = r'.userId ∧ r.modelName = r'.modelName ∧
      r.extraContext.sortKeys = r'.extraContext.sortKeys := by
  obtain ⟨userId, huser, -, rfl⟩ := CacheKey.buildCacheKey_eq_some.mp hkey
  obtain ⟨userId', huser', -, hsame⟩ := CacheKey.buildCacheKey_eq_some.mp hkey'
  have htext := hinj (String.append_right_inj _ |>.mp hsame)
  have hparts := Json.spaced_injective (String.ofList_injective htext)
  simp only [CacheKey.Request.parts, Json.sortKeys, Json.sortKeysList_eq_map, Json.arr.injEq,
    List.map_cons, List.map_nil, List.cons.injEq, Json.str.injEq, true_and, and_true] at hparts
  obtain ⟨hid, hmodel, -, -, hcontext⟩ := hparts
  exact ⟨by rw [huser, huser', hid], hmodel.symm, hcontext.symm⟩

/-- The mock graph and the middleware share no key. -/
theorem isMock_of_key (hinj : Function.Injective hexdigest) {a b : ChatCall}
    {messages messages' : List CacheKey.Message} {system system' : Option CacheKey.Message}
    {userId userId' selected selected' key : String} {memory memory' : List (String × String)}
    (hkey : CacheKey.buildCacheKey hexdigest py
      (keyRequest a messages system userId selected memory) = some key)
    (hkey' : CacheKey.buildCacheKey hexdigest py
      (keyRequest b messages' system' userId' selected' memory') = some key) :
    userId = userId' ∧ selected = selected' ∧ isMock a = isMock b := by
  obtain ⟨huser, hmodel, hcontext⟩ := owner_of_key hinj hkey hkey'
  unfold keyRequest at huser hmodel hcontext
  cases ha : isMock a <;> cases hb : isMock b <;>
    simp_all [memoryContext, Json.sortKeys]

/-- The response was not taken from the cache: it is the policy's text or what the model has
    answered, or the text the mock graph makes of the memories it has read. -/
def Own (call : ChatCall) (past : List LockEvent) (response : ModelResponse) : Prop :=
  match call with
  | .mockChat state => ∃ memory, response = .reply (mockText state ⟨memory, none, none⟩) false ∧
      (state.userId = none → memory = []) ∧
        ∀ userId, state.userId = some userId → Remembered past userId memory
  | _ => Refused response ∨ ⟨.handler, .ok response⟩ ∈ past

omit [DecidableEq ι] in
/-- What a call answers is its own, or was found under a key of its own. -/
theorem own_or_found (call : ChatCall) {log : List LockEvent} {response : ModelResponse}
    {held : Option CacheLock} (h : Exits call.run none log (.ok response) held) :
    Own call log response ∨ ∃ userId selected memory key found, userOf call = some userId ∧
      Built log userId selected memory key ∧ Found log key found ∧ found.text = response.text := by
  cases call with
  | wrapModelCall request =>
    rcases modelCall_exits waiting_wait handling_ask h with hr | ha | ⟨u, selected, key, hu, hb, hf⟩
    · exact .inl (.inl hr)
    · exact .inl (.inr ha)
    · exact .inr ⟨u, selected, [], key, response, hu, hb, hf, rfl⟩
  | awrapModelCall request =>
    rcases modelCall_exits waiting_awaited handling_awaited h with
      hr | ha | ⟨u, selected, key, hu, hb, hf⟩
    · exact .inl (.inl hr)
    · exact .inl (.inr ha)
    · exact .inr ⟨u, selected, [], key, response, hu, hb, hf, rfl⟩
  | mockChat state =>
    rcases mockChat_exits h with hown | ⟨u, memory, key, found, hu, hb, hf, rfl⟩
    · exact .inl hown
    · exact .inr ⟨u, state.selected, memory, key, found, hu, hb, hf, rfl⟩

/-- **What a call answers** it has made itself, or a call of the same kind has made it and stored it
    for the same user, the same model and the same key, whatever the other calls do in between. -/
theorem answers_of_same_user (hinj : Function.Injective hexdigest) (call : ι → ChatCall)
    {c : Config (raising Exn Answer) (SharedStore ι) ι}
    (hc : (sharedCache hexdigest py call).Steps (start call) c) (i : ι) {response : ModelResponse}
    {held : Option CacheLock} (h : Exits (call i).run none (c.store.past i) (.ok response) held) :
    Own (call i) (c.store.past i) response ∨ ∃ j userId selected memory key,
      userOf (call i) = some userId ∧ isMock (call i) = isMock (call j) ∧
        Built (c.store.past i) userId selected memory key ∧
          Authored (call j) (c.store.past j) userId selected key response.text := by
  have hprovenance := provenance_steps hc
  rcases own_or_found (call i) h with hown | ⟨userId, selected, memory, key, found, hu, hb, hf, ht⟩
  · exact .inl hown
  · obtain ⟨j, userId', selected', hauthored⟩ := hprovenance.found i key found hf
    obtain ⟨memory', hbuilt', -⟩ := hauthored.made
    obtain ⟨_, _, hkey⟩ := hprovenance.keyed i userId selected memory key hb
    obtain ⟨_, _, hkey'⟩ := hprovenance.keyed j userId' selected' memory' key hbuilt'
    obtain ⟨rfl, rfl, hmock⟩ := isMock_of_key hinj hkey hkey'
    exact .inr ⟨j, userId, selected, memory, key, hu, hmock, hb, ht ▸ hauthored⟩

/-! ## A second call -/

variable (hexdigest py) in
/-- The cache bears the statements of the log, one after another. -/
inductive Bears (call : ChatCall) :
    (String → Option String) → List LockEvent → (String → Option String) → Prop
  | nil {cache : String → Option String} : Bears call cache [] cache
  | cons {cache cache' : String → Option String} {e : LockEvent} {rest : List LockEvent}
      (ch : Choice) : (∀ s : SharedStore ι, s.cache = cache →
        reply hexdigest py call s ch e.1 = some e.2) →
          Bears call (written cache ch e.1) rest cache' → Bears call cache (e :: rest) cache'

/-- What the cache bears is a run. -/
theorem steps_of_bears {prog : ι → Prog (raising Exn Answer) Unit} {past : ι → List LockEvent}
    {cache cache' : String → Option String} {log : List LockEvent}
    (hbears : Bears (ι := ι) hexdigest py (call i) cache log cache') {a : Unit}
    (hpath : Prog.Path (prog i) log a) :
    (sharedCache hexdigest py call).Steps ⟨⟨cache, past⟩, prog⟩
      ⟨⟨cache', Function.update past i (past i ++ log)⟩, Function.update prog i (.ret a)⟩ := by
  induction hbears generalizing prog past with
  | nil =>
    generalize hp : prog i = p at hpath
    cases hpath
    have hprog : Function.update prog i (.ret a) = prog := by rw [← hp, Function.update_eq_self]
    rw [hprog, List.append_nil, Function.update_eq_self]
    exact .refl
  | @cons cache cache' e rest ch hreply _ ih =>
    generalize hp : prog i = p at hpath
    cases hpath with
    | @call o k r _ _ hpath =>
      have hexec : (sharedCache hexdigest py call).exec i o ch ⟨cache, past⟩ =
          some (r, SharedStore.record ⟨cache, past⟩ i (written cache ch o) ⟨o, r⟩) :=
        congrArg (Option.map _) (hreply ⟨cache, past⟩ rfl)
      have hstep : (sharedCache hexdigest py call).step i (.stmt ch) ⟨⟨cache, past⟩, prog⟩ =
          some ⟨SharedStore.record ⟨cache, past⟩ i (written cache ch o) ⟨o, r⟩,
            Function.update prog i (k r)⟩ := by
        simp only [Machine.step, hp, hexec, Option.map_some]
      refine Relation.ReflTransGen.head ⟨i, _, hstep⟩ ?_
      have hrest : Prog.Path (Function.update prog i (k r) i) rest a := by
        rwa [Function.update_self]
      have hnext := @ih (Function.update prog i (k r))
        (Function.update past i (past i ++ [⟨o, r⟩])) hrest
      rw [Function.update_self, Function.update_idem, Function.update_idem,
        List.append_assoc] at hnext
      exact hnext

/-- What is chosen in the example below: nothing raises, and a lookup comes to the entry. -/
def calm : Choice where
  answer
    | .resolveModel => .ok "gpt"
    | .rememberFromMessages _ => .ok []
    | .buildMemorySystemPrompt _ _ => .ok ""
    | .userMemoryMap _ _ => .ok []
    | .buildCacheKey _ _ _ => .ok ""
    | .getJson _ => .ok .null
    | .acquireLock key => .ok (some ⟨key, "t"⟩)
    | .waitForJson _ => .ok none
    | .setJson _ _ => .ok true
    | .releaseLock _ => .ok true
    | .handler => .ok (.reply "你好" false)
    | .tokenUsage _ => .ok 7
    | .sessionLocal => .ok ()
    | .close => .ok ()
    | .authorizeModelAccess _ _ => .ok ()
    | .ensureConversation _ _ _ => .ok ()
    | .normalizeMultimodalMessages _ => .ok ()
    | .addTrace _ => .ok ()
    | .enforceModel _ _ => .ok ()
    | .getChatModel _ => .ok ()
    | .resume => .ok ()
    | .recordTokenUsage _ _ => .ok ()
    | .commitTrace _ => .ok ()
  shown := true
  written := true
  messages := [CacheKey.plainMessage (.str "hi")]
  system := none

/-- Two calls with the first message of one user -/
def greeters : Bool → ChatCall := fun _ => .wrapModelCall ⟨some "alice", none⟩

def greetingKey : String := "chat:graph_response:" ++ Sha2.hexdigest CacheKey.greetingText

/-- What both calls do up to the first lookup -/
def openingLog : List LockEvent :=
  [⟨.resolveModel, .ok "gpt"⟩,
    ⟨.sessionLocal, .ok ()⟩,
    ⟨.authorizeModelAccess "alice" "gpt", .ok ()⟩,
    ⟨.ensureConversation "alice" none "gpt", .ok ()⟩,
    ⟨.rememberFromMessages "alice", .ok []⟩,
    ⟨.buildMemorySystemPrompt "alice" true, .ok ""⟩,
    ⟨.normalizeMultimodalMessages "gpt", .ok ()⟩,
    ⟨.buildCacheKey "alice" "gpt" [], .ok greetingKey⟩,
    ⟨.addTrace "model:gpt", .ok ()⟩]

def askingLog : List LockEvent :=
  [⟨.getJson greetingKey, .ok .null⟩,
    ⟨.acquireLock greetingKey, .ok (some ⟨greetingKey, "t"⟩)⟩,
    ⟨.getJson greetingKey, .ok .null⟩,
    ⟨.enforceModel "alice" "gpt", .ok ()⟩,
    ⟨.getChatModel "gpt", .ok ()⟩,
    ⟨.handler, .ok (.reply "你好" false)⟩,
    ⟨.tokenUsage (.reply "你好" false), .ok 7⟩,
    ⟨.recordTokenUsage "alice" 7, .ok ()⟩,
    ⟨.commitTrace "success", .ok ()⟩,
    ⟨.setJson greetingKey "你好", .ok true⟩,
    ⟨.releaseLock (some ⟨greetingKey, "t"⟩), .ok true⟩,
    ⟨.close, .ok ()⟩]

def findingLog : List LockEvent :=
  [⟨.getJson greetingKey, .ok (contentValue "你好")⟩,
    ⟨.tokenUsage (.reply "你好" true), .ok 7⟩,
    ⟨.recordTokenUsage "alice" 7, .ok ()⟩,
    ⟨.commitTrace "success", .ok ()⟩,
    ⟨.releaseLock none, .ok true⟩,
    ⟨.close, .ok ()⟩]

omit [DecidableEq ι] in
theorem reply_greeting (s : SharedStore ι) (a : Bool) :
    reply CacheKey.greetingHash CacheKey.noDecoder (greeters a) s calm
      (.buildCacheKey "alice" "gpt" []) = some (.ok greetingKey) := by
  have hkey : CacheKey.buildCacheKey CacheKey.greetingHash CacheKey.noDecoder
      (CacheKey.firstRequest (.str "hi")) = some greetingKey := by
    rw [CacheKey.buildCacheKey_first]
    exact congrArg (fun text => some ("chat:graph_response:" ++ text)) (Equiv.swap_apply_left _ _)
  exact congrArg (Option.map Except.ok) hkey

omit [DecidableEq ι] in
theorem bears_opening (a : Bool) (cache : String → Option String) {rest : List LockEvent}
    {cache' : String → Option String}
    (h : Bears (ι := ι) CacheKey.greetingHash CacheKey.noDecoder (greeters a) cache rest cache') :
    Bears (ι := ι) CacheKey.greetingHash CacheKey.noDecoder (greeters a) cache
      (openingLog ++ rest) cache' :=
  .cons calm (fun _ _ => rfl) <| .cons calm (fun _ _ => rfl) <| .cons calm (fun _ _ => rfl) <|
    .cons calm (fun _ _ => rfl) <| .cons calm (fun _ _ => rfl) <| .cons calm (fun _ _ => rfl) <|
      .cons calm (fun _ _ => rfl) <| .cons calm (fun s _ => reply_greeting s a) <|
        .cons calm (fun _ _ => rfl) h

omit [DecidableEq ι] in
theorem reply_miss {s : SharedStore ι} (hs : s.cache = fun _ => none) (a : Bool) :
    reply hexdigest py (greeters a) s calm (.getJson greetingKey) = some (.ok .null) := by
  simp [reply, calm, SharedStore.look, hs, Except.map]

omit [DecidableEq ι] in
theorem reply_hit {s : SharedStore ι} {content : String} (hs : s.cache greetingKey = some content)
    (a : Bool) : reply hexdigest py (greeters a) s calm (.getJson greetingKey) =
      some (.ok (contentValue content)) := by
  simp [reply, calm, SharedStore.look, hs, Except.map]

omit [DecidableEq ι] in
theorem bears_asking : Bears (ι := ι) CacheKey.greetingHash CacheKey.noDecoder (greeters false)
    (fun _ => none) (openingLog ++ askingLog)
      (Function.update (fun _ => none) greetingKey (some "你好")) :=
  bears_opening false _ <| .cons calm (fun _ hs => reply_miss hs false) <|
    .cons calm (fun _ _ => rfl) <| .cons calm (fun _ hs => reply_miss hs false) <|
      .cons calm (fun _ _ => rfl) <| .cons calm (fun _ _ => rfl) <| .cons calm (fun _ _ => rfl) <|
        .cons calm (fun _ _ => rfl) <| .cons calm (fun _ _ => rfl) <|
          .cons calm (fun _ _ => rfl) <| .cons calm (fun _ _ => rfl) <|
            .cons calm (fun _ _ => rfl) <| .cons calm (fun _ _ => rfl) .nil

omit [DecidableEq ι] in
theorem bears_finding {cache : String → Option String} (h : cache greetingKey = some "你好") :
    Bears (ι := ι) CacheKey.greetingHash CacheKey.noDecoder (greeters true) cache
      (openingLog ++ findingLog) cache :=
  bears_opening true _ <| .cons calm (fun _ hs => reply_hit (hs ▸ h) true) <|
    .cons calm (fun _ _ => rfl) <| .cons calm (fun _ _ => rfl) <| .cons calm (fun _ _ => rfl) <|
      .cons calm (fun _ _ => rfl) <| .cons calm (fun _ _ => rfl) .nil

theorem exits_asking : Exits (greeters false).run none (openingLog ++ askingLog)
    (.ok (.reply "你好" false)) (some ⟨greetingKey, "t"⟩) :=
  .call <| .call <| .call <| .call <| .call <| .call <| .call <| .call <| .call <| .call <|
    .call <| .call <| .call <| .call <| .call <| .call <| .call <| .call <| .call <| .call <|
      .call <| .ret _

theorem exits_finding : Exits (greeters true).run none (openingLog ++ findingLog)
    (.ok (.reply "你好" true)) none :=
  .call <| .call <| .call <| .call <| .call <| .call <| .call <| .call <| .call <| .call <|
    .call <| .call <| .call <| .call <| .call <| .ret _

/-- The first call has ended and the second one has not begun. -/
def answeredOnce : Config (raising Exn Answer) (SharedStore Bool) Bool :=
  ⟨⟨Function.update (fun _ => none) greetingKey (some "你好"),
      Function.update (fun _ => []) false (openingLog ++ askingLog)⟩,
    Function.update (start greeters).prog false (.ret ())⟩

def answeredTwice : Config (raising Exn Answer) (SharedStore Bool) Bool :=
  ⟨⟨answeredOnce.store.cache,
      Function.update answeredOnce.store.past true (openingLog ++ findingLog)⟩,
    Function.update answeredOnce.prog true (.ret ())⟩

theorem steps_twice : (sharedCache CacheKey.greetingHash CacheKey.noDecoder greeters).Steps
    (start greeters) answeredTwice := by
  have hpath : ∀ {a : Bool} {log : List LockEvent} {response : ModelResponse}
      {held : Option CacheLock}, Exits (greeters a).run none log (.ok response) held →
        Prog.Path (((greeters a).run none).bind fun _ => .ret ()) log () := fun h =>
    Prog.path_bind_iff.mpr ⟨_, _, [], (List.append_nil _).symm, h, .ret ()⟩
  have hfirst : (sharedCache CacheKey.greetingHash CacheKey.noDecoder greeters).Steps
      (start greeters) answeredOnce :=
    steps_of_bears (i := false) bears_asking (hpath exits_asking)
  have hsecond : (sharedCache CacheKey.greetingHash CacheKey.noDecoder greeters).Steps
      answeredOnce answeredTwice :=
    steps_of_bears (i := true) (bears_finding (Function.update_self ..)) (hpath exits_finding)
  exact Relation.ReflTransGen.trans hfirst hsecond

/-- The second call is answered with what the first one has made. -/
theorem answers_of_same_user_found : ∃ j userId selected memory key,
    userOf (greeters true) = some userId ∧ isMock (greeters true) = isMock (greeters j) ∧
      Built (answeredTwice.store.past true) userId selected memory key ∧
        Authored (greeters j) (answeredTwice.store.past j) userId selected key "你好" := by
  refine (answers_of_same_user (Equiv.injective _) greeters steps_twice true
    exits_finding).resolve_left ?_
  rintro (⟨message, hmessage⟩ | hanswer)
  · simp [policyViolationResponse] at hmessage
  · change _ ∈ openingLog ++ findingLog at hanswer
    simp [openingLog, findingLog] at hanswer

end SharedCache

end Chat

end HyChat
