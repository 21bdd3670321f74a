import HyChat.Chat.Stream
import HyChat.Lib.Suite

/-!
# The locks of the response cache

A model call looks its cache key up, takes the key's lock when there is nothing, looks again, and
calls the model. `wrap_model_call` and `awrap_model_call` give the lock back in a `finally` block;
the mock graph does so in its last statement but one, and keeps it when anything raises before.

Every function that is called is a statement that may answer anything or raise. An exception is a
policy violation, another `Exception`, or one that is none, such as a cancellation.

Why every call is a program of statements that may raise. Releasing a lock is a property of control
flow: which `finally` surrounds which statement, and what happens when a statement in an `except`
block raises itself. So the model keeps the code's blocks and takes every function that is called
for a statement with any answer and any exception, the release included. The values that go through
are kept as far as a branch looks at them.

The variable `cache_lock` is state and not an argument, since the `finally` block reads what the
`try` block has assigned before it was left. `release` in a `finally` is then a fact about the log:
whatever raises, the next statement after the block is left releases what the variable holds.

For the middleware this holds on every exit, `BaseException`s included. For the mock graph, which
has no such block, there is a condition, and it is exact: nothing may raise between the acquisition
and the release. What a release comes to is not asked; a lock that Redis did not delete expires.
-/

set_option autoImplicit false

namespace HyChat

open Lib

namespace Chat

namespace ResponseLocks

/-! ## Statements

An answer is what a function returns, or an exception. -/

inductive Exn
  | policyViolation (message : String)
  | exception (text : String)
  /-- A `BaseException` that is no `Exception` -/
  | base (name : String)
  deriving DecidableEq

structure CacheLock where
  key : String
  token : String
  deriving DecidableEq

/-- What a call of the model answers. Only a text in a single message that asks for no tool can be
    cached. -/
inductive ModelResponse
  | reply (content : String) (cacheHit : Bool)
  | other
  deriving DecidableEq

/-- The functions that are called, with the arguments that matter -/
inductive Callee
  | resolveModel
  | sessionLocal
  | close
  | authorizeModelAccess (userId selected : String)
  | ensureConversation (userId : String) (threadId : Option String) (selected : String)
  | rememberFromMessages (userId : String)
  | buildMemorySystemPrompt (userId : String) (backfillFromTraces : Bool)
  | userMemoryMap (userId : String) (backfillFromTraces : Bool)
  | normalizeMultimodalMessages (selected : String)
  | buildCacheKey (userId selected : String) (memory : List (String × String))
  /-- `db.add`, `db.commit` and `db.refresh` of a new span -/
  | addTrace (name : String)
  | getJson (key : String)
  | acquireLock (key : String)
  | waitForJson (key : String)
  | setJson (key content : String)
  | releaseLock (lock : Option CacheLock)
  | enforceModel (userId selected : String)
  | getChatModel (selected : String)
  | handler
  /-- A coroutine goes on after an `await`. -/
  | resume
  | tokenUsage (response : ModelResponse)
  | recordTokenUsage (userId : String) (total : Int)
  | commitTrace (status : String)
  deriving DecidableEq

/-- What a function answers when it does not raise -/
@[reducible] def Answer : Callee → Type
  | .resolveModel => String
  | .rememberFromMessages _ => List String
  | .buildMemorySystemPrompt _ _ => String
  | .userMemoryMap _ _ => List (String × String)
  | .buildCacheKey _ _ _ => String
  | .getJson _ => Json
  | .acquireLock _ => Option CacheLock
  | .waitForJson _ => Option Json
  | .setJson _ _ => Bool
  | .releaseLock _ => Bool
  | .handler => ModelResponse
  | .tokenUsage _ => Int
  | _ => Unit

abbrev LockEvent := Suite.Event Exn Answer

/-- Code with the variable `cache_lock` -/
abbrev Code (α : Type) := Suite Exn (Option CacheLock) Answer α

open Suite

def ask (callee : Callee) : Code (Answer callee) := call callee

/-! ## `chat_response_cache` -/

def cachedResponseFromValue : Json → Option ModelResponse
  | .obj value =>
      match value.lookup "content" with
      | some (.str content) => if content = "" then none else some (.reply content true)
      | _ => none
  | _ => none

def getCachedResponse : Option String → Code (Option ModelResponse)
  | none => pure none
  | some key => do
      let value ← ask (.getJson key)
      pure (cachedResponseFromValue value)

def acquireResponseLock : Option String → Code (Option CacheLock)
  | none => pure none
  | some key => ask (.acquireLock key)

def waitForCachedResponse : Option String → Code (Option ModelResponse)
  | none => pure none
  | some key => do
      let lookup ← ask (.waitForJson key)
      pure (lookup.bind cachedResponseFromValue)

def releaseResponseLock (lock : Option CacheLock) : Code Bool := ask (.releaseLock lock)

def cacheableResponseContent : ModelResponse → Option String
  | .reply content _ => if content = "" then none else some content
  | .other => none

def storeResponse (cacheKey : Option String) (response : ModelResponse) : Code Bool :=
  match cacheKey, cacheableResponseContent response with
  | some key, some content => ask (.setJson key content)
  | _, _ => pure false

/-! ## The middleware -/

/-- A request; an empty user is none. -/
structure ModelRequest where
  userId : Option String
  threadId : Option String

/-- What `_prepare_model_call` returns; there is a trace when there is a user. -/
structure Prepared where
  userId : Option String
  trace : Bool
  selected : String
  cacheKey : Option String

/-- `if user_id: …` -/
def whenUser (userId : Option String) (statement : String → Code Unit) : Code Unit :=
  match userId with
  | some userId => statement userId
  | none => pure ()

/-- `if trace: …; db.commit()` -/
def commitTrace (trace : Bool) (status : String) : Code Unit :=
  if trace then ask (.commitTrace status) else pure ()

/-- `except Exception: …; raise` -/
def onException {α : Type} (cleanup : Code Unit) (again : Exn → Code α) : Exn → Option (Code α)
  | .base _ => none
  | e => some do
      cleanup
      again e

def appendMemoryToRequest (userId : String) : Code Unit :=
  tryExcept
    (do
      let deletedMemoryKeys ← ask (.rememberFromMessages userId)
      let _ ← ask (.buildMemorySystemPrompt userId (!deletedMemoryKeys.contains "profile.name")))
    (onException (pure ()) fun _ => pure ())

/-- What is prepared for a user -/
def prepareUser (request : ModelRequest) (selected userId : String) : Code Prepared := do
  ask (.authorizeModelAccess userId selected)
  ask (.ensureConversation userId request.threadId selected)
  appendMemoryToRequest userId
  ask (.normalizeMultimodalMessages selected)
  let cacheKey ← ask (.buildCacheKey userId selected [])
  ask (.addTrace s!"model:{selected}")
  pure ⟨some userId, true, selected, some cacheKey⟩

def prepareModelCall (request : ModelRequest) : Code Prepared := do
  let selected ← ask .resolveModel
  ask .sessionLocal
  tryExcept
    (match request.userId with
    | some userId => prepareUser request selected userId
    | none => do
        ask (.normalizeMultimodalMessages selected)
        pure ⟨none, false, selected, none⟩)
    (onException (ask .close) raise)

def finishModelCall (p : Prepared) (response : ModelResponse) : Code Unit := do
  let total ← ask (.tokenUsage response)
  whenUser p.userId fun userId => ask (.recordTokenUsage userId total)
  commitTrace p.trace "success"

def failTrace (trace : Bool) : Code Unit := commitTrace trace "error"

def policyViolationResponse (message : String) : ModelResponse :=
  .reply (policyViolationContent message) false

/-- A cached response is accounted for like any other. -/
def answerCached (p : Prepared) (cached : ModelResponse) : Code ModelResponse := do
  finishModelCall p cached
  pure cached

/-- The part of a call that asks the model -/
def askModel (handle : Code ModelResponse) (p : Prepared) : Code ModelResponse := do
  whenUser p.userId fun userId => ask (.enforceModel userId p.selected)
  ask (.getChatModel p.selected)
  let response ← handle
  finishModelCall p response
  let _ ← storeResponse p.cacheKey response
  pure response

/-- `cache_lock = acquire_response_lock(cache_key)` -/
def takeLock (cacheKey : Option String) : Code (Option CacheLock) := do
  let lock ← acquireResponseLock cacheKey
  assign lock
  pure lock

/-- With the lock the call looks again, without it it waits for the caller that has it. -/
def lookAgain (wait : Option String → Code (Option ModelResponse)) (cacheKey : Option String)
    (lock : Option CacheLock) : Code (Option ModelResponse) :=
  match cacheKey, lock with
  | some _, none => wait cacheKey
  | _, some _ => getCachedResponse cacheKey
  | none, none => pure none

/-- A response that has been found is answered, or else the model is asked. -/
def answerOr (p : Prepared) (fresh : Code ModelResponse) :
    Option ModelResponse → Code ModelResponse
  | some cached => answerCached p cached
  | none => fresh

/-- The call once the key's lock has been asked for -/
def answerLocked (wait : Option String → Code (Option ModelResponse)) (handle : Code ModelResponse)
    (p : Prepared) (lock : Option CacheLock) : Code ModelResponse := do
  let cached ← lookAgain wait p.cacheKey lock
  answerOr p (askModel handle p) cached

/-- The `try` block -/
def answer (wait : Option String → Code (Option ModelResponse)) (handle : Code ModelResponse)
    (p : Prepared) : Code ModelResponse := do
  let cached ← getCachedResponse p.cacheKey
  answerOr p (takeLock p.cacheKey >>= answerLocked wait handle p) cached

/-- The `except` blocks -/
def onFailure (p : Prepared) : Exn → Option (Code ModelResponse)
  | .policyViolation message => some do
      failTrace p.trace
      pure (policyViolationResponse message)
  | e => onException (failTrace p.trace) raise e

/-- The `finally` block -/
def release : Code Unit := do
  let lock ← locals
  let _ ← releaseResponseLock lock
  ask .close

/-- A policy violation before anything has been looked up is answered at once. -/
def prepared (request : ModelRequest) : Code (ModelResponse ⊕ Prepared) :=
  tryExcept
    (do
      let p ← prepareModelCall request
      pure (.inr p))
    fun
      | .policyViolation message => some (pure (.inl (policyViolationResponse message)))
      | _ => none

/-- What the two functions of the middleware have in common. They differ in how they wait for a
    cached response and in how they run the handler. -/
def modelCall (wait : Option String → Code (Option ModelResponse)) (handle : Code ModelResponse)
    (request : ModelRequest) : Code ModelResponse := do
  match ← prepared request with
  | .inl response => pure response
  | .inr p => tryFinally (tryExcept (answer wait handle p) (onFailure p)) release

def wrapModelCall (request : ModelRequest) : Code ModelResponse :=
  modelCall waitForCachedResponse (ask .handler) request

/-- `await`: the coroutine may be cancelled before it goes on. -/
def awaited {α : Type} (x : Code α) : Code α := do
  let a ← x
  ask .resume
  pure a

def awrapModelCall (request : ModelRequest) : Code ModelResponse :=
  modelCall (fun key => awaited (waitForCachedResponse key)) (awaited (ask .handler)) request

/-! ## The mock graph -/

/-- What `mock_chat` reads of the state and the runtime -/
structure MockState where
  userId : Option String
  threadId : Option String
  selected : String
  content : String
  /-- `_asks_user_name(content)` -/
  asksUserName : Bool

/-- The memories of the user, or none when they are not available -/
def memoryValues (userId : String) : Code (List (String × String)) :=
  tryExcept
    (do
      let deletedMemoryKeys ← ask (.rememberFromMessages userId)
      ask (.userMemoryMap userId (!deletedMemoryKeys.contains "profile.name")))
    (onException (pure ()) fun _ => pure [])

/-- What the first session yields: the memories, the cache key and the cached text -/
structure Looked where
  memory : List (String × String)
  cacheKey : Option String
  cached : Option String

def ModelResponse.text : ModelResponse → String
  | .reply content _ => content
  | .other => ""

/-- Without the lock the call waits. -/
def mockWait (key : String) : Option CacheLock → Code (Option ModelResponse)
  | some _ => pure none
  | none => waitForCachedResponse (some key)

/-- A response that has been found is shown, or else the user is charged. -/
def mockFound (state : MockState) (userId : String) (looked : Looked) :
    Option ModelResponse → Code Looked
  | some cached => pure { looked with cached := some cached.text }
  | none => do
      ask (.enforceModel userId state.selected)
      pure looked

/-- The first session, once the key's lock has been asked for -/
def mockLocked (state : MockState) (userId : String) (memory : List (String × String))
    (key : String) (lock : Option CacheLock) : Code Looked := do
  let cached ← mockWait key lock
  mockFound state userId ⟨memory, some key, none⟩ cached

def mockLookup (state : MockState) (userId : String) : Code Looked := do
  ask (.authorizeModelAccess userId state.selected)
  let memory ← memoryValues userId
  let key ← ask (.buildCacheKey userId state.selected memory)
  let cached ← getCachedResponse (some key)
  match cached with
  | some cached => pure ⟨memory, some key, some cached.text⟩
  | none => do
      let lock ← takeLock (some key)
      mockLocked state userId memory key lock

/-- What is looked up in the first session; without a user there is none. -/
def mockSession (state : MockState) : Code Looked :=
  match state.userId with
  | none => pure ⟨[], none, none⟩
  | some userId => do
      ask .sessionLocal
      tryFinally (mockLookup state userId) (ask .close)

/-- `response_text` -/
def mockText (state : MockState) (looked : Looked) : String :=
  let name := ((looked.memory.lookup "profile.name").filter (· ≠ ""))
  match looked.cached, name with
  | some cached, _ => cached
  | none, some name =>
      if state.asksUserName then
        s!"【模拟模型输出】\n\n你叫{name}。这是根据同一账号的长期记忆回答的。"
      else
        s!"【模拟模型输出】\n\n当前模型：\x60{state.selected}\x60。HY-Agent 的聊天链路已连接成功。" ++
          "配置真实模型密钥后即可使用真实模型、工具调用与知识库检索回答。" ++
          s!"\n\n长期记忆：用户姓名是 {name}。\n\n你刚才发送的是：{state.content}"
  | none, none =>
      s!"【模拟模型输出】\n\n当前模型：\x60{state.selected}\x60。HY-Agent 的聊天链路已连接成功。" ++
        "配置真实模型密钥后即可使用真实模型、工具调用与知识库检索回答。" ++
        s!"\n\n你刚才发送的是：{state.content}"

/-- The trace of the reply -/
def mockTrace (state : MockState) (userId : String) : Code Unit := do
  ask .sessionLocal
  tryFinally
    (do
      ask (.ensureConversation userId state.threadId state.selected)
      ask (.addTrace s!"model:{state.selected}:mock"))
    (ask .close)

/-- `if not cache_hit: store_response(…)` -/
def mockStore (looked : Looked) (response : ModelResponse) : Code Bool :=
  if looked.cached.isNone then storeResponse looked.cacheKey response else pure false

/-- What follows the lookup, up to the release of the lock -/
def mockReply (state : MockState) (looked : Looked) : Code ModelResponse := do
  let response := ModelResponse.reply (mockText state looked) looked.cached.isSome
  whenUser state.userId (mockTrace state)
  let _ ← mockStore looked response
  pure response

/-- `mock_chat` up to the release of the lock -/
def mockHeld (state : MockState) : Code ModelResponse := do
  let looked ← mockSession state
  mockReply state looked

def mockChat (state : MockState) : Code ModelResponse := do
  let response ← mockHeld state
  let lock ← locals
  let _ ← releaseResponseLock lock
  pure response

/-! ## What the calls do to the lock

Most statements neither acquire nor release. The lemmas `*_tame` say this of a part of the code,
and compose by the library's rules. -/

/-- The lock a statement has acquired -/
def locked : LockEvent → Option CacheLock
  | ⟨.acquireLock _, .ok lock⟩ => lock
  | _ => none

/-- The statement acquires no lock and releases none. -/
def NoLock (e : LockEvent) : Prop := locked e = none ∧ ∀ lock, e.1 ≠ .releaseLock lock

/-- The function is one that acquires or releases. -/
def Callee.onLock : Callee → Bool
  | .acquireLock _ => true
  | .releaseLock _ => true
  | _ => false

/-- A statement that is not about locks -/
theorem noLock_of {callee : Callee} (h : callee.onLock = false) (r : Except Exn (Answer callee)) :
    NoLock ⟨callee, r⟩ := by
  refine ⟨?_, fun lock he => ?_⟩
  · cases callee with
    | acquireLock key => cases h
    | _ => rfl
  · subst he
    cases h

section Tame

variable {strict : Bool}

theorem ask_tame {callee : Callee} (h : callee.onLock = false) :
    Tame NoLock strict (ask callee) := Tame.call (noLock_of h)

theorem getCachedResponse_tame (key : Option String) :
    Tame NoLock strict (getCachedResponse key) := by
  cases key with
  | none => exact .pure _
  | some key => exact .bind (ask_tame rfl) fun _ => .pure _

theorem waitForCachedResponse_tame (key : Option String) :
    Tame NoLock strict (waitForCachedResponse key) := by
  cases key with
  | none => exact .pure _
  | some key => exact .bind (ask_tame rfl) fun _ => .pure _

theorem storeResponse_tame (key : Option String) (response : ModelResponse) :
    Tame NoLock strict (storeResponse key response) := by
  unfold storeResponse
  split
  · exact ask_tame rfl
  · exact .pure _

theorem whenUser_tame (userId : Option String) {statement : String → Code Unit}
    (h : ∀ u, Tame NoLock strict (statement u)) :
    Tame NoLock strict (whenUser userId statement) := by
  cases userId with
  | some u => exact h u
  | none => exact .pure _

theorem commitTrace_tame (trace : Bool) (status : String) :
    Tame NoLock strict (commitTrace trace status) := by
  cases trace with
  | true => exact ask_tame rfl
  | false => exact .pure _

theorem finishModelCall_tame (p : Prepared) (response : ModelResponse) :
    Tame NoLock strict (finishModelCall p response) := by
  refine .bind (ask_tame rfl) fun total => .bind (whenUser_tame _ fun u => ?_) fun _ => ?_
  · exact ask_tame rfl
  · exact commitTrace_tame _ _

theorem answerCached_tame (p : Prepared) (cached : ModelResponse) :
    Tame NoLock strict (answerCached p cached) :=
  .bind (finishModelCall_tame p cached) fun _ => .pure _

theorem askModel_tame {handle : Code ModelResponse} (hhandle : Tame NoLock strict handle)
    (p : Prepared) : Tame NoLock strict (askModel handle p) := by
  refine .bind (whenUser_tame _ fun u => ask_tame rfl) fun _ => .bind (ask_tame rfl) fun _ => ?_
  refine .bind hhandle fun response => .bind (finishModelCall_tame p response) fun _ => ?_
  exact .bind (storeResponse_tame _ _) fun _ => .pure _

theorem lookAgain_tame {wait : Option String → Code (Option ModelResponse)}
    (hwait : ∀ key, Tame NoLock strict (wait key)) (key : Option String) (lock : Option CacheLock) :
    Tame NoLock strict (lookAgain wait key lock) := by
  unfold lookAgain
  split
  · exact hwait _
  · exact getCachedResponse_tame _
  · exact .pure _

theorem answerOr_tame (p : Prepared) {fresh : Code ModelResponse} (h : Tame NoLock strict fresh)
    (cached : Option ModelResponse) : Tame NoLock strict (answerOr p fresh cached) := by
  cases cached with
  | some cached => exact answerCached_tame p cached
  | none => exact h

theorem answerLocked_tame {wait : Option String → Code (Option ModelResponse)}
    {handle : Code ModelResponse} (hwait : ∀ key, Tame NoLock strict (wait key))
    (hhandle : Tame NoLock strict handle) (p : Prepared) (lock : Option CacheLock) :
    Tame NoLock strict (answerLocked wait handle p lock) :=
  .bind (lookAgain_tame hwait _ lock) fun cached => answerOr_tame p (askModel_tame hhandle p) cached

theorem onException_tame {α : Type} {cleanup : Code Unit} {again : Exn → Code α}
    (hcleanup : Tame NoLock false cleanup) (hagain : ∀ e, Tame NoLock false (again e)) :
    ∀ e s, onException cleanup again e = some s → Tame NoLock false s := by
  intro e s h
  cases e with
  | base name => cases h
  | _ =>
    cases h
    exact .bind hcleanup fun _ => hagain _

theorem onFailure_tame (p : Prepared) : ∀ e s, onFailure p e = some s → Tame NoLock false s := by
  intro e s h
  cases e with
  | policyViolation message =>
    cases h
    exact .bind (commitTrace_tame _ _) fun _ => .pure _
  | exception text =>
    exact onException_tame (commitTrace_tame p.trace "error") Tame.raise (.exception text) s h
  | base name => cases h

theorem appendMemoryToRequest_tame (userId : String) :
    Tame NoLock false (appendMemoryToRequest userId) := by
  refine .tryExcept ?_ (onException_tame (.pure _) fun _ => .pure _)
  exact .bind (ask_tame rfl) fun _ => .bind (ask_tame rfl) fun _ => .pure _

theorem prepareUser_tame (request : ModelRequest) (selected userId : String) :
    Tame NoLock false (prepareUser request selected userId) := by
  refine .bind (ask_tame rfl) fun _ => .bind (ask_tame rfl) fun _ => ?_
  refine .bind (appendMemoryToRequest_tame userId) fun _ => .bind (ask_tame rfl) fun _ => ?_
  exact .bind (ask_tame rfl) fun _ => .bind (ask_tame rfl) fun _ => .pure _

theorem prepareModelCall_tame (request : ModelRequest) :
    Tame NoLock false (prepareModelCall request) := by
  refine .bind (ask_tame rfl) fun selected => .bind (ask_tame rfl) fun _ => ?_
  refine .tryExcept ?_ (onException_tame (ask_tame rfl) Tame.raise)
  cases request.userId with
  | some userId => exact prepareUser_tame request selected userId
  | none => exact .bind (ask_tame rfl) fun _ => .pure _

theorem prepared_tame (request : ModelRequest) : Tame NoLock false (prepared request) := by
  refine .tryExcept (.bind (prepareModelCall_tame request) fun _ => .pure _) ?_
  intro e s h
  cases e with
  | policyViolation message =>
    cases h
    exact .pure _
  | _ => cases h

theorem awaited_tame {α : Type} {x : Code α} (h : Tame NoLock strict x) :
    Tame NoLock strict (awaited x) :=
  .bind h fun _ => .bind (ask_tame rfl) fun _ => .pure _

theorem memoryValues_tame (userId : String) : Tame NoLock false (memoryValues userId) := by
  refine .tryExcept ?_ (onException_tame (.pure _) fun _ => .pure _)
  exact .bind (ask_tame rfl) fun _ => ask_tame rfl

theorem mockLocked_tame (state : MockState) (userId : String) (memory : List (String × String))
    (key : String) (lock : Option CacheLock) :
    Tame NoLock strict (mockLocked state userId memory key lock) := by
  refine .bind ?_ fun cached => ?_
  · cases lock with
    | some lock => exact .pure _
    | none => exact waitForCachedResponse_tame (some key)
  · cases cached with
    | some cached => exact .pure _
    | none => exact .bind (ask_tame rfl) fun _ => .pure _

theorem mockTrace_tame (state : MockState) (userId : String) :
    Tame NoLock strict (mockTrace state userId) := by
  refine .bind (ask_tame rfl) fun _ => .tryFinally ?_ (ask_tame rfl)
  exact .bind (ask_tame rfl) fun _ => ask_tame rfl

theorem mockReply_tame (state : MockState) (looked : Looked) :
    Tame NoLock strict (mockReply state looked) := by
  refine .bind (whenUser_tame _ (mockTrace_tame state)) fun _ => .bind ?_ fun _ => .pure _
  unfold mockStore
  split
  · exact storeResponse_tame _ _
  · exact .pure _

end Tame

/-! ## The lock that is taken -/

/-- What is acquired is held, whatever it is. -/
theorem exits_hold {lock held held' : Option CacheLock} {log : List LockEvent}
    {out : Except Exn (Option CacheLock)}
    (h : Exits (assign lock >>= fun _ => pure lock) held log out held') :
    log = [] ∧ out = .ok lock ∧ held' = lock := by
  rcases exits_bind h with ⟨err, hassign, _⟩ | ⟨_, _, _, _, rfl, hassign, h⟩
  · cases (exits_assign hassign).2.1
  · obtain ⟨rfl, _, rfl⟩ := exits_assign hassign
    obtain ⟨rfl, rfl, rfl⟩ := exits_pure h
    exact ⟨rfl, rfl, rfl⟩

theorem noLock_acquireLock {key : String} {r : Except Exn (Option CacheLock)}
    (h : ∀ lock, r ≠ .ok (some lock)) : NoLock ⟨.acquireLock key, r⟩ := by
  refine ⟨?_, fun lock he => by cases he⟩
  cases r with
  | error err => rfl
  | ok lock =>
    cases lock with
    | none => rfl
    | some lock => exact absurd rfl (h lock)

/-- The variable holds what was acquired. -/
theorem takeLock_takes {strict : Bool} (key : Option String) :
    Takes NoLock locked strict (takeLock key) := by
  intro log out held h
  cases key with
  | none =>
    rcases exits_bind h with ⟨err, hacquire, _⟩ | ⟨_, lock, _, _, rfl, hacquire, h⟩
    · cases (exits_pure hacquire).2.1
    · obtain ⟨rfl, hlock, rfl⟩ := exits_pure hacquire
      cases hlock
      obtain ⟨rfl, _, rfl⟩ := exits_hold h
      exact .inl ⟨List.forall_mem_nil _, rfl⟩
  | some key =>
    rcases exits_bind h with ⟨err, hacquire, _⟩ | ⟨_, lock, _, _, rfl, hacquire, h⟩
    · obtain ⟨rfl, rfl⟩ := exits_call hacquire
      refine .inl ⟨fun e he => ?_, rfl⟩
      rw [List.mem_singleton.mp he]
      exact noLock_acquireLock fun lock hl => by cases hl
    · obtain ⟨rfl, rfl⟩ := exits_call hacquire
      obtain ⟨rfl, rfl, rfl⟩ := exits_hold h
      cases held with
      | none =>
        refine .inl ⟨fun e he => ?_, rfl⟩
        rw [List.mem_singleton.mp he]
        exact noLock_acquireLock fun lock hl => by cases hl
      | some lock =>
        refine .inr ⟨[], _, [], lock, rfl, List.forall_mem_nil _, List.forall_mem_nil _, rfl, rfl,
          fun _ => iff_of_false not_raises_ok ?_⟩
        rintro ⟨e, he, _⟩
        cases he

/-- The `try` block takes at most one lock. -/
theorem answer_takes {wait : Option String → Code (Option ModelResponse)}
    {handle : Code ModelResponse} (hwait : ∀ key, Tame NoLock false (wait key))
    (hhandle : Tame NoLock false handle) (p : Prepared) :
    Takes NoLock locked false (answer wait handle p) := by
  refine .after_tame (getCachedResponse_tame _) fun cached => ?_
  cases cached with
  | some cached => exact (answerCached_tame p cached).takes
  | none => exact .bind (takeLock_takes _) fun lock => answerLocked_tame hwait hhandle p lock

theorem mockLookup_takes (state : MockState) (userId : String) :
    Takes NoLock locked true (mockLookup state userId) := by
  refine .after_tame (ask_tame rfl) fun _ => .after_tame (memoryValues_tame userId) fun memory => ?_
  refine .after_tame (ask_tame rfl) fun key => ?_
  refine .after_tame (getCachedResponse_tame _) fun cached => ?_
  cases cached with
  | some cached => exact (Tame.pure _).takes
  | none => exact .bind (takeLock_takes _) fun lock => mockLocked_tame state userId memory key lock

/-- The mock graph takes at most one lock. -/
theorem mockHeld_takes (state : MockState) : Takes NoLock locked true (mockHeld state) := by
  refine .bind ?_ fun looked => mockReply_tame state looked
  unfold mockSession
  cases state.userId with
  | none => exact (Tame.pure _).takes
  | some userId =>
    refine .after_tame (ask_tame rfl) fun _ => ?_
    exact .tryFinally (mockLookup_takes state userId) (ask_tame rfl)

/-! ## Every exit -/

/-- Every lock that has been acquired has been released afterwards. -/
def Released (log : List LockEvent) : Prop :=
  ∀ before e rest lock, log = before ++ e :: rest → locked e = some lock →
    ∃ answer, ⟨.releaseLock (some lock), answer⟩ ∈ rest

/-- After a lock has been acquired nothing raises, a release apart. -/
def Undisturbed (log : List LockEvent) : Prop :=
  ∀ before e rest lock, log = before ++ e :: rest → locked e = some lock →
    ∀ later ∈ rest, Event.Raised later → ∃ lock', later.1 = .releaseLock lock'

/-- The calls that use the cache -/
inductive ChatCall
  | wrapModelCall (request : ModelRequest)
  | awrapModelCall (request : ModelRequest)
  | mockChat (state : MockState)

def ChatCall.run : ChatCall → Code ModelResponse
  | .wrapModelCall request => ResponseLocks.wrapModelCall request
  | .awrapModelCall request => ResponseLocks.awrapModelCall request
  | .mockChat state => ResponseLocks.mockChat state

/-- What the middleware does with the lock it does whatever raises; the mock graph must not be
    disturbed. -/
def ChatCall.Keeps (log : List LockEvent) : ChatCall → Prop
  | .mockChat _ => Undisturbed log
  | _ => True

/-- Where a lock is acquired once, the split of the log is known. -/
theorem split_unique {before rest before' rest' : List LockEvent} {e e' : LockEvent}
    {lock : CacheLock}
    (hbefore : ∀ x ∈ before, locked x = none) (hrest : ∀ x ∈ rest, locked x = none)
    (h : before ++ e :: rest = before' ++ e' :: rest') (he' : locked e' = some lock) :
    before' = before ∧ e' = e ∧ rest' = rest := by
  induction before generalizing before' with
  | nil =>
    cases before' with
    | nil =>
      cases h
      exact ⟨rfl, rfl, rfl⟩
    | cons first before' =>
      obtain ⟨rfl, rfl⟩ := List.cons.inj h
      have hnone := hrest e' (by simp)
      rw [he'] at hnone
      cases hnone
  | cons first before ih =>
    cases before' with
    | nil =>
      obtain ⟨rfl, rfl⟩ := List.cons.inj h
      have hnone := hbefore first List.mem_cons_self
      rw [he'] at hnone
      cases hnone
    | cons first' before' =>
      obtain ⟨rfl, hrest'⟩ := List.cons.inj h
      obtain ⟨rfl, rfl, rfl⟩ := ih (fun x hx => hbefore x (List.mem_cons_of_mem _ hx)) hrest'
      exact ⟨rfl, rfl, rfl⟩

theorem released_of_none {log : List LockEvent} (h : ∀ e ∈ log, locked e = none) :
    Released log := by
  rintro before e rest lock rfl he
  have hnone := h e (by simp)
  rw [he] at hnone
  cases hnone

theorem undisturbed_of_none {log : List LockEvent} (h : ∀ e ∈ log, locked e = none) :
    Undisturbed log := by
  rintro before e rest lock rfl he
  have hnone := h e (by simp)
  rw [he] at hnone
  cases hnone

section Once

variable {before rest : List LockEvent} {e : LockEvent} {lock : CacheLock}

theorem released_once (hbefore : ∀ x ∈ before, locked x = none) (he : locked e = some lock)
    (hrest : ∀ x ∈ rest, locked x = none) :
    Released (before ++ e :: rest) ↔ ∃ answer, ⟨.releaseLock (some lock), answer⟩ ∈ rest := by
  constructor
  · intro h
    exact h before e rest lock rfl he
  · intro h before' e' rest' lock' heq he'
    obtain ⟨rfl, rfl, rfl⟩ := split_unique hbefore hrest heq he'
    rw [he] at he'
    cases he'
    exact h

theorem undisturbed_once (hbefore : ∀ x ∈ before, locked x = none) (he : locked e = some lock)
    (hrest : ∀ x ∈ rest, locked x = none) :
    Undisturbed (before ++ e :: rest) ↔
      ∀ later ∈ rest, Event.Raised later → ∃ lock', later.1 = .releaseLock lock' := by
  constructor
  · intro h
    exact h before e rest lock rfl he
  · intro h before' e' rest' lock' heq he'
    obtain ⟨rfl, rfl, rfl⟩ := split_unique hbefore hrest heq he'
    exact h

end Once

/-- What the variable holds is released first of all. -/
theorem exits_releasing {α : Type} {next : Code α} {held held' : Option CacheLock}
    {log : List LockEvent} {out : Except Exn α}
    (h : Exits (locals >>= fun lock => releaseResponseLock lock >>= fun _ => next)
      held log out held') :
    ∃ answer rest, log = ⟨.releaseLock held, answer⟩ :: rest ∧
      (rest = [] ∨ Exits next held rest out held') := by
  rcases exits_bind h with ⟨err, hlocals, _⟩ | ⟨_, lock, _, log, rfl, hlocals, hrest⟩
  · cases (exits_locals hlocals).2.1
  · obtain ⟨rfl, hlock, rfl⟩ := exits_locals hlocals
    cases hlock
    rw [List.nil_append]
    rcases exits_bind hrest with ⟨err, hrelease, _⟩ | ⟨_, answer, _, rest, rfl, hrelease, hnext⟩
    · exact ⟨_, [], (exits_call hrelease).1, .inl rfl⟩
    · obtain ⟨rfl, rfl⟩ := exits_call hrelease
      exact ⟨_, rest, rfl, .inr hnext⟩

/-- **The middleware** releases the lock on every exit. -/
theorem modelCall_released {wait : Option String → Code (Option ModelResponse)}
    {handle : Code ModelResponse} (hwait : ∀ key, Tame NoLock false (wait key))
    (hhandle : Tame NoLock false handle) {request : ModelRequest} {log : List LockEvent}
    {out : Except Exn ModelResponse} {held : Option CacheLock}
    (h : Exits (modelCall wait handle request) none log out held) : Released log := by
  rcases exits_bind h with ⟨err, hprepared, _⟩ | ⟨first, p, mid, rest, rfl, hprepared, hcall⟩
  · exact released_of_none fun e he => ((prepared_tame request _ _ _ _ hprepared).2.1 e he).1
  · obtain ⟨rfl, hfirst, _⟩ := prepared_tame request _ _ _ _ hprepared
    have hf : ∀ x ∈ first, locked x = none := fun x hx => (hfirst x hx).1
    cases p with
    | inl response =>
      obtain ⟨rfl, _, _⟩ := exits_pure hcall
      rw [List.append_nil]
      exact released_of_none hf
    | inr p =>
      obtain ⟨body, res, mid, last, done, rfl, hbody, hlast, _⟩ := exits_tryFinally hcall
      obtain ⟨answer, closed, rfl, hclosed⟩ := exits_releasing hlast
      have hl : ∀ x ∈ (⟨.releaseLock mid, answer⟩ :: closed : List LockEvent), locked x = none := by
        refine List.forall_mem_cons.mpr ⟨rfl, fun x hx => ?_⟩
        rcases hclosed with rfl | hclose
        · cases hx
        · obtain ⟨rfl, _⟩ := exits_call hclose
          rw [List.mem_singleton.mp hx]
          rfl
      have htakes := (answer_takes hwait hhandle p).tryExcept (onFailure_tame p)
      rcases htakes _ _ _ hbody with
        ⟨hbody, _⟩ | ⟨before, e, later, lock, rfl, hbefore, hlater, he, rfl, _⟩
      · refine released_of_none (List.forall_mem_append.mpr ⟨hf, ?_⟩)
        exact List.forall_mem_append.mpr ⟨fun x hx => (hbody x hx).1, hl⟩
      · have hb : ∀ x ∈ first ++ before, locked x = none :=
          List.forall_mem_append.mpr ⟨hf, fun x hx => (hbefore x hx).1⟩
        have hr : ∀ x ∈ later ++ ⟨.releaseLock (some lock), answer⟩ :: closed, locked x = none :=
          List.forall_mem_append.mpr ⟨fun x hx => (hlater x hx).1, hl⟩
        have hreleased := (released_once hb he hr).mpr ⟨answer, by simp⟩
        simpa using hreleased

/-- **The mock graph** releases the lock on the exits on which nothing has raised since. -/
theorem mockChat_released_iff {state : MockState} {log : List LockEvent}
    {out : Except Exn ModelResponse} {held : Option CacheLock}
    (h : Exits (mockChat state) none log out held) : Released log ↔ Undisturbed log := by
  rcases exits_bind h with ⟨err, hheld, rfl⟩ | ⟨first, response, mid, rest, rfl, hheld, hrelease⟩
  · rcases mockHeld_takes state _ _ _ hheld with
      ⟨hlog, _⟩ | ⟨before, e, later, lock, rfl, hbefore, hlater, he, _, hstrict⟩
    · have hnone : ∀ e ∈ log, locked e = none := fun e he => (hlog e he).1
      exact iff_of_true (released_of_none hnone) (undisturbed_of_none hnone)
    · -- the exception that has ended the call is one of those that are excluded
      have hb : ∀ x ∈ before, locked x = none := fun x hx => (hbefore x hx).1
      have hl : ∀ x ∈ later, locked x = none := fun x hx => (hlater x hx).1
      rw [released_once hb he hl, undisturbed_once hb he hl]
      obtain ⟨raised, hmem, hraised⟩ := (hstrict rfl).mp ⟨err, rfl⟩
      refine iff_of_false ?_ fun h => ?_
      · rintro ⟨answer, hanswer⟩
        exact (hlater _ hanswer).2 _ rfl
      · obtain ⟨lock', hlock⟩ := h raised hmem hraised
        exact (hlater raised hmem).2 lock' hlock
  · obtain ⟨answer, closed, rfl, hclosed⟩ := exits_releasing hrelease
    obtain rfl : closed = [] := hclosed.elim id fun hreturn => (exits_pure hreturn).1
    have hr : ∀ x ∈ ([⟨.releaseLock mid, answer⟩] : List LockEvent), locked x = none :=
      List.forall_mem_singleton.mpr rfl
    rcases mockHeld_takes state _ _ _ hheld with
      ⟨hlog, _⟩ | ⟨before, e, later, lock, rfl, hbefore, hlater, he, rfl, hstrict⟩
    · have hnone : ∀ e ∈ first ++ [⟨.releaseLock mid, answer⟩], locked e = none :=
        List.forall_mem_append.mpr ⟨fun x hx => (hlog x hx).1, hr⟩
      exact iff_of_true (released_of_none hnone) (undisturbed_of_none hnone)
    · have hb : ∀ x ∈ before, locked x = none := fun x hx => (hbefore x hx).1
      have hl : ∀ x ∈ later ++ [⟨.releaseLock (some lock), answer⟩], locked x = none :=
        List.forall_mem_append.mpr ⟨fun x hx => (hlater x hx).1, hr⟩
      have hsplit : before ++ e :: later ++ [⟨.releaseLock (some lock), answer⟩] =
          before ++ e :: (later ++ [⟨.releaseLock (some lock), answer⟩]) := by simp
      rw [hsplit, released_once hb he hl, undisturbed_once hb he hl]
      refine iff_of_true ⟨answer, by simp⟩ fun raised hmem hraised => ?_
      rcases List.mem_append.mp hmem with hmem | hmem
      · exact absurd ((hstrict rfl).mpr ⟨raised, hmem, hraised⟩) not_raises_ok
      · rw [List.mem_singleton.mp hmem]
        exact ⟨_, rfl⟩

/-- **A response lock that has been acquired is released on every exit** of the middleware, and on
    those exits of the mock graph on which nothing has raised since. -/
theorem response_lock_released (call : ChatCall) {log : List LockEvent}
    {out : Except Exn ModelResponse} {held : Option CacheLock}
    (h : Exits call.run none log out held) : Released log ↔ call.Keeps log := by
  cases call with
  | wrapModelCall request =>
    exact iff_of_true (modelCall_released waitForCachedResponse_tame (ask_tame rfl) h) trivial
  | awrapModelCall request =>
    refine iff_of_true (modelCall_released (fun key => ?_) ?_ h) trivial
    · exact awaited_tame (waitForCachedResponse_tame key)
    · exact awaited_tame (ask_tame rfl)
  | mockChat state => exact mockChat_released_iff h

/-- A run of the middleware that is cancelled while the model answers -/
def cancelledLog : List LockEvent :=
  [⟨.resolveModel, .ok "glm-5.2"⟩,
    ⟨.sessionLocal, .ok ()⟩,
    ⟨.authorizeModelAccess "u" "glm-5.2", .ok ()⟩,
    ⟨.ensureConversation "u" none "glm-5.2", .ok ()⟩,
    ⟨.rememberFromMessages "u", .ok []⟩,
    ⟨.buildMemorySystemPrompt "u" true, .ok ""⟩,
    ⟨.normalizeMultimodalMessages "glm-5.2", .ok ()⟩,
    ⟨.buildCacheKey "u" "glm-5.2" [], .ok "k"⟩,
    ⟨.addTrace "model:glm-5.2", .ok ()⟩,
    ⟨.getJson "k", .ok .null⟩,
    ⟨.acquireLock "k", .ok (some ⟨"cache:lock:k", "t"⟩)⟩,
    ⟨.getJson "k", .ok .null⟩,
    ⟨.enforceModel "u" "glm-5.2", .ok ()⟩,
    ⟨.getChatModel "glm-5.2", .ok ()⟩,
    ⟨.handler, .ok (.reply "你好" false)⟩,
    ⟨.resume, .error (.base "CancelledError")⟩,
    ⟨.releaseLock (some ⟨"cache:lock:k", "t"⟩), .ok true⟩,
    ⟨.close, .ok ()⟩]

theorem response_lock_released_cancelled :
    Exits (ChatCall.awrapModelCall ⟨some "u", none⟩).run none cancelledLog
      (.error (.base "CancelledError")) (some ⟨"cache:lock:k", "t"⟩) ∧ Released cancelledLog := by
  have hexits : Exits (ChatCall.awrapModelCall ⟨some "u", none⟩).run none cancelledLog
      (.error (.base "CancelledError")) (some ⟨"cache:lock:k", "t"⟩) :=
    .call <| .call <| .call <| .call <| .call <| .call <| .call <| .call <| .call <| .call <|
      .call <| .call <| .call <| .call <| .call <| .call <| .call <| .call <| .ret _
  exact ⟨hexits, (response_lock_released _ hexits).mpr trivial⟩

def refusedState : MockState := ⟨some "u", none, "glm-5.2", "你好", false⟩

/-- Nothing is cached, the lock is free, and the user has asked too often. -/
def refusedLog : List LockEvent :=
  [⟨.sessionLocal, .ok ()⟩,
    ⟨.authorizeModelAccess "u" "glm-5.2", .ok ()⟩,
    ⟨.rememberFromMessages "u", .ok []⟩,
    ⟨.userMemoryMap "u" true, .ok []⟩,
    ⟨.buildCacheKey "u" "glm-5.2" [], .ok "k"⟩,
    ⟨.getJson "k", .ok .null⟩,
    ⟨.acquireLock "k", .ok (some ⟨"cache:lock:k", "t"⟩)⟩,
    ⟨.enforceModel "u" "glm-5.2", .error (.policyViolation "请求过于频繁：每分钟最多 20 次")⟩,
    ⟨.close, .ok ()⟩]

/-- **The mock graph keeps the lock** of a user whom the policy refuses. -/
theorem mock_chat_keeps_lock :
    Exits (ChatCall.mockChat refusedState).run none refusedLog
      (.error (.policyViolation "请求过于频繁：每分钟最多 20 次")) (some ⟨"cache:lock:k", "t"⟩) ∧
      ¬ Released refusedLog := by
  refine ⟨?_, fun h => ?_⟩
  · exact .call <| .call <| .call <| .call <| .call <| .call <| .call <| .call <| .call <| .ret _
  · obtain ⟨answer, hanswer⟩ :=
      h (refusedLog.take 6) _ (refusedLog.drop 7) ⟨"cache:lock:k", "t"⟩ rfl rfl
    rcases List.mem_cons.mp hanswer with he | hanswer
    · cases he
    · rcases List.mem_cons.mp hanswer with he | hanswer
      · cases he
      · cases hanswer

end ResponseLocks

end Chat

end HyChat
