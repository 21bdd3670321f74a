import HyChat.Chat.ResponseLocks
import HyChat.Lib.Guarded

/-!
# What a model call does in which order

A call that is for a user is let through by the policy before it does anything else. It then looks
its key up, asks for the lock of the key and looks again or waits, and only when nothing was found
the policy counts it and the model is asked, once. What is answered is charged, once, and only what
the model has answered and the user was charged for is stored, under the key that was built for the
request. The mock graph asks no model: it is counted, charges nothing, and stores the text it makes
of the memories the key was built with.

These are properties of every statement of every run, also of a run that breaks off: `Due` says
what must have happened before a statement is issued. That something has *not* happened is no use
when the cache was never asked, so what stands before the count is twofold: `Asked`, the lookups
that were answered, and `Missed`, that none of them has found a response. A lookup that raises has
not answered, and the call then ends without counting anything.

A call without a user has no key. It looks nothing up, and nothing is counted, charged or stored
for it. What the statements do to the cache and to the other calls is not said here but in
`SharedCache`.

How a property of every statement is proved. `Prog.Guarded Due` asks of a program that each
statement it issues is due after the log so far. It does not compose by itself, since what the
second part may rely on is what the first has left in the log. So each part has two or three
lemmas: `*_only` says which kinds of statements it issues at all, `*_exits` what its log shows when
it has answered, and `*_guarded` that its statements are due after any log that meets its
precondition. `Guarded.after` puts the parts together. A part that issues nothing that counts,
asks, charges or stores is `Plain`, and most of the code is.

Why the middleware and the mock graph are kept apart although both use the same cache functions.
The mock graph does not look again once it has the lock, charges nothing, and makes its text of the
memories; a common `Due` would be the weaker of the two in each clause.

An exception ends a part and its log stays. That is why `Missed` and `Idle` are about logs and not
about answers: a call that dies between the count and the model has counted, and nothing of what it
has not done is claimed.
-/

set_option autoImplicit false

namespace HyChat

open Lib

namespace Chat

namespace ResponseLocks

open Suite

/-! ## Histories

A log is the list of the statements issued with what was answered or raised, the latest last. -/

/-- A statement that counts, asks the model, charges or stores -/
def Callee.waits : Callee → Bool
  | .enforceModel _ _ => true
  | .handler => true
  | .recordTokenUsage _ _ => true
  | .setJson _ _ => true
  | _ => false

/-- A lookup of a cached response -/
def Callee.looks : Callee → Bool
  | .getJson _ => true
  | .waitForJson _ => true
  | _ => false

/-- The statement that asks for a lock -/
def Callee.locks : Callee → Bool
  | .acquireLock _ => true
  | _ => false

/-- The statement that accounts for the tokens of a response -/
def Callee.charges : Callee → Bool
  | .recordTokenUsage _ _ => true
  | _ => false

/-- The statement that stores a response -/
def Callee.stores : Callee → Bool
  | .setJson _ _ => true
  | _ => false

/-- A statement that may come before the user is let through, or without it: a model is chosen, a
    session is opened and closed, and the policy is asked. -/
def Callee.opens : Callee → Bool
  | .resolveModel => true
  | .sessionLocal => true
  | .close => true
  | .authorizeModelAccess _ _ => true
  | _ => false

/-- The policy has let the user have a model. Without a user nobody is asked. -/
def Authorized (past : List LockEvent) (userId : Option String) : Prop :=
  ∀ u, userId = some u → ∃ selected, ⟨.authorizeModelAccess u selected, .ok ()⟩ ∈ past

/-- Nothing was counted, asked, charged or stored. -/
def Idle (past : List LockEvent) : Prop := ∀ e ∈ past, e.1.waits = false

/-- The cache has answered with the response. -/
def Found (past : List LockEvent) (key : String) (response : ModelResponse) : Prop :=
  ∃ value, (⟨.getJson key, .ok value⟩ ∈ past ∨ ⟨.waitForJson key, .ok (some value)⟩ ∈ past) ∧
    cachedResponseFromValue value = some response

/-- No lookup has found anything. -/
def Missed (past : List LockEvent) : Prop := ∀ key response, ¬Found past key response

/-- The key was built for the user. -/
def Built (past : List LockEvent) (userId selected : String) (memory : List (String × String))
    (key : String) : Prop :=
  ⟨.buildCacheKey userId selected memory, .ok key⟩ ∈ past

/-- The lookup has been answered. -/
def Queried (past : List LockEvent) (key : String) : Prop :=
  ∃ value, ⟨.getJson key, .ok value⟩ ∈ past

/-- The cache was asked for the key before its lock, and after it: a call that has not got the lock
    has waited, and one that has it has looked `again`. -/
def Asked (again : Bool) (past : List LockEvent) (key : String) : Prop :=
  ∃ before lock after, past = before ++ ⟨.acquireLock key, .ok lock⟩ :: after ∧
    Queried before key ∧ (lock = none → ∃ found, ⟨.waitForJson key, .ok found⟩ ∈ after) ∧
      (again = true → lock ≠ none → Queried after key)

/-- What must have happened before a lookup: the key is the one that was built for the user, nothing
    was found so far and nothing was done without the cache. -/
def LookupDue (userId : Option String) (past : List LockEvent) (key : String) : Prop :=
  (∃ u selected memory, userId = some u ∧ Built past u selected memory key) ∧ Idle past ∧ Missed past

/-- The memories are those the service has answered; where it has raised there are none. -/
def Remembered (past : List LockEvent) (userId : String) (memory : List (String × String)) : Prop :=
  (∃ backfill, ⟨.userMemoryMap userId backfill, .ok memory⟩ ∈ past) ∨
    memory = [] ∧ ∃ e ∈ past, Event.Raised e ∧
      (e.1 = .rememberFromMessages userId ∨ ∃ backfill, e.1 = .userMemoryMap userId backfill)

/-- What must have happened before a statement of the middleware -/
def ModelRequest.Due (request : ModelRequest) (past : List LockEvent) (callee : Callee) : Prop :=
  (callee.opens = false → Authorized past request.userId) ∧
    match callee with
    | .getJson key => LookupDue request.userId past key
    | .acquireLock key => LookupDue request.userId past key ∧ Queried past key
    | .waitForJson key =>
        LookupDue request.userId past key ∧ ⟨.acquireLock key, .ok none⟩ ∈ past
    | .enforceModel userId selected =>
        request.userId = some userId ∧ Idle past ∧ Missed past ∧
          ⟨.authorizeModelAccess userId selected, .ok ()⟩ ∈ past ∧
            ∃ key, Built past userId selected [] key ∧ Asked true past key
    | .handler =>
        (∀ e ∈ past, e.1 ≠ .handler) ∧ Missed past ∧ ∀ userId, request.userId = some userId →
          ∃ selected key, Built past userId selected [] key ∧ Asked true past key ∧
            ⟨.enforceModel userId selected, .ok ()⟩ ∈ past
    | .recordTokenUsage userId total =>
        request.userId = some userId ∧ (∀ e ∈ past, e.1.charges = false) ∧
          ∃ response, ⟨.tokenUsage response, .ok total⟩ ∈ past ∧
            (⟨.handler, .ok response⟩ ∈ past ∨
              ∃ selected key, Built past userId selected [] key ∧ Found past key response)
    | .setJson key content =>
        (∀ e ∈ past, e.1.stores = false) ∧ ∃ userId selected total cacheHit,
          request.userId = some userId ∧ Built past userId selected [] key ∧
            ⟨.handler, .ok (.reply content cacheHit)⟩ ∈ past ∧
              ⟨.recordTokenUsage userId total, .ok ()⟩ ∈ past
    | _ => True

/-- What must have happened before a statement of the mock graph, which asks no model. It does not
    look again once it has the lock. -/
def MockState.Due (state : MockState) (past : List LockEvent) (callee : Callee) : Prop :=
  (callee.opens = false → Authorized past state.userId) ∧
    match callee with
    | .getJson key => LookupDue state.userId past key
    | .acquireLock key => LookupDue state.userId past key ∧ Queried past key
    | .waitForJson key =>
        LookupDue state.userId past key ∧ ⟨.acquireLock key, .ok none⟩ ∈ past
    | .enforceModel userId selected =>
        state.userId = some userId ∧ selected = state.selected ∧ Idle past ∧ Missed past ∧
          ⟨.authorizeModelAccess userId selected, .ok ()⟩ ∈ past ∧
            ∃ memory key, Built past userId selected memory key ∧ Asked false past key
    | .handler => False
    | .recordTokenUsage _ _ => False
    | .setJson key content =>
        (∀ e ∈ past, e.1.stores = false) ∧ ∃ userId memory, state.userId = some userId ∧
          Built past userId state.selected memory key ∧ Remembered past userId memory ∧
            ⟨.enforceModel userId state.selected, .ok ()⟩ ∈ past ∧
              content = mockText state ⟨memory, some key, none⟩
    | _ => True

def ChatCall.Due : ChatCall → List LockEvent → Callee → Prop
  | .wrapModelCall request => request.Due
  | .awrapModelCall request => request.Due
  | .mockChat state => state.Due

/-- A statement that counts, asks, charges and stores nothing -/
def Free (callee : Callee) : Prop := callee.waits = false

/-- A statement for which the user only has to be let through -/
structure Plain (callee : Callee) : Prop where
  free : callee.waits = false
  blind : callee.looks = false
  lockless : callee.locks = false

section

variable {past rest : List LockEvent} {request : ModelRequest} {state : MockState}
  {callee : Callee}

/-- What is free neither asks the model nor charges nor stores. -/
theorem spends_nothing (h : Free callee) :
    callee ≠ .handler ∧ callee.charges = false ∧ callee.stores = false := by
  cases callee with
  | handler => cases h
  | recordTokenUsage userId total => cases h
  | setJson key content => cases h
  | _ => exact ⟨fun he => (by cases he), rfl, rfl⟩

/-- What was let through stays so. -/
theorem Authorized.mono {userId : Option String} (h : Authorized past userId)
    (hsub : ∀ e ∈ past, e ∈ rest) : Authorized rest userId :=
  fun u hu => (h u hu).imp fun _ => hsub _

theorem Authorized.append {userId : Option String} (h : Authorized past userId)
    (rest : List LockEvent) : Authorized (past ++ rest) userId :=
  h.mono fun _ => List.mem_append_left rest

/-- A plain statement only needs the user to be let through. -/
theorem Plain.due (h : Plain callee) (hauthorized : Authorized past request.userId) :
    request.Due past callee := by
  refine ⟨fun _ => hauthorized, ?_⟩
  cases callee with
  | enforceModel userId selected => cases h.free
  | handler => cases h.free
  | recordTokenUsage userId total => cases h.free
  | setJson key content => cases h.free
  | getJson key => cases h.blind
  | waitForJson key => cases h.blind
  | acquireLock key => cases h.lockless
  | _ => trivial

/-- The same in the mock graph -/
theorem Plain.mockDue (h : Plain callee) (hauthorized : Authorized past state.userId) :
    state.Due past callee := by
  refine ⟨fun _ => hauthorized, ?_⟩
  cases callee with
  | enforceModel userId selected => cases h.free
  | handler => cases h.free
  | recordTokenUsage userId total => cases h.free
  | setJson key content => cases h.free
  | getJson key => cases h.blind
  | waitForJson key => cases h.blind
  | acquireLock key => cases h.lockless
  | _ => trivial

/-- What opens is always due. -/
theorem due_of_opens (h : callee.opens = true) : request.Due past callee := by
  refine ⟨fun hclosed => absurd h (by rw [hclosed]; exact Bool.false_ne_true), ?_⟩
  cases callee with
  | resolveModel => trivial
  | sessionLocal => trivial
  | close => trivial
  | authorizeModelAccess userId selected => trivial
  | _ => cases h

theorem mockDue_of_opens (h : callee.opens = true) : state.Due past callee := by
  refine ⟨fun hclosed => absurd h (by rw [hclosed]; exact Bool.false_ne_true), ?_⟩
  cases callee with
  | resolveModel => trivial
  | sessionLocal => trivial
  | close => trivial
  | authorizeModelAccess userId selected => trivial
  | _ => cases h

/-- Only the text of a response is stored. -/
theorem text_of_cacheable {text content : String} {cacheHit : Bool}
    (h : cacheableResponseContent (.reply text cacheHit) = some content) : text = content := by
  simp only [cacheableResponseContent] at h
  split at h
  · cases h
  · exact Option.some.inj h

/-- Nothing was counted, and then nothing was. -/
theorem Idle.append (hpast : Idle past) (hrest : ∀ e ∈ rest, Free e.1) : Idle (past ++ rest) :=
  List.forall_mem_append.mpr ⟨hpast, hrest⟩

/-- What was asked stays asked. -/
theorem Asked.append {again : Bool} {key : String} (h : Asked again past key)
    (rest : List LockEvent) : Asked again (past ++ rest) key := by
  obtain ⟨before, lock, after, rfl, hfirst, hwaited, hagain⟩ := h
  refine ⟨before, lock, after ++ rest, by simp, hfirst, fun hnone => ?_, fun ha hlock => ?_⟩
  · exact (hwaited hnone).imp fun _ => List.mem_append_left rest
  · exact (hagain ha hlock).imp fun _ => List.mem_append_left rest

/-- What the memory service has answered stays in the log. -/
theorem Remembered.mono {userId : String} {memory : List (String × String)}
    (h : Remembered past userId memory) (hsub : ∀ e ∈ past, e ∈ rest) :
    Remembered rest userId memory :=
  h.imp (fun ⟨backfill, hmem⟩ => ⟨backfill, hsub _ hmem⟩) fun ⟨hnone, e, he, hraised⟩ =>
    ⟨hnone, e, hsub _ he, hraised⟩

end

section

variable {past rest : List LockEvent}

/-- A response was found in one of two stretches of a log. -/
theorem found_append {key : String} {response : ModelResponse} :
    Found (past ++ rest) key response ↔ Found past key response ∨ Found rest key response := by
  constructor
  · rintro ⟨value, hmem | hmem, hvalue⟩
    · rcases List.mem_append.mp hmem with hmem | hmem
      · exact .inl ⟨value, .inl hmem, hvalue⟩
      · exact .inr ⟨value, .inl hmem, hvalue⟩
    · rcases List.mem_append.mp hmem with hmem | hmem
      · exact .inl ⟨value, .inr hmem, hvalue⟩
      · exact .inr ⟨value, .inr hmem, hvalue⟩
  · rintro (⟨value, hmem, hvalue⟩ | ⟨value, hmem, hvalue⟩)
    · exact ⟨value, hmem.imp (List.mem_append_left _) (List.mem_append_left _), hvalue⟩
    · exact ⟨value, hmem.imp (List.mem_append_right _) (List.mem_append_right _), hvalue⟩

/-- Two stretches of a log in which nothing was found. -/
theorem Missed.append (hpast : Missed past) (hrest : Missed rest) : Missed (past ++ rest) := by
  intro key response hfound
  rcases found_append.mp hfound with hfound | hfound
  · exact hpast key response hfound
  · exact hrest key response hfound

/-- Without a lookup nothing was found. -/
theorem missed_of (h : ∀ e ∈ past, e.1.looks = false) : Missed past := by
  rintro key response ⟨value, hmem | hmem, -⟩
  · exact absurd (h _ hmem) (by simp [Callee.looks])
  · exact absurd (h _ hmem) (by simp [Callee.looks])

end

/-! ## The statements of the parts

Which kinds of statements a part can issue, whatever is answered. -/

theorem ask_only {K : Callee → Prop} {callee : Callee} (h : K callee) : Only K (ask callee) :=
  Only.call h

theorem getCachedResponse_only (key : Option String) : Only Free (getCachedResponse key) := by
  cases key with
  | none => exact .pure _
  | some key => exact .bind (ask_only rfl) fun _ => .pure _

theorem waitForCachedResponse_only (key : Option String) : Only Free (waitForCachedResponse key) := by
  cases key with
  | none => exact .pure _
  | some key => exact .bind (ask_only rfl) fun _ => .pure _

theorem takeLock_only (key : Option String) : Only Free (takeLock key) := by
  refine .bind ?_ fun lock => .bind (.assign _) fun _ => .pure _
  cases key with
  | none => exact .pure _
  | some key => exact ask_only rfl

theorem commitTrace_only (trace : Bool) (status : String) :
    Only Plain (commitTrace trace status) := by
  cases trace with
  | true => exact ask_only ⟨rfl, rfl, rfl⟩
  | false => exact .pure _

theorem release_only : Only Plain release :=
  .bind .locals fun _ => .bind (ask_only ⟨rfl, rfl, rfl⟩) fun _ => ask_only ⟨rfl, rfl, rfl⟩

theorem onException_only {K : Callee → Prop} {α : Type} {cleanup : Code Unit}
    {again : Exn → Code α} (hcleanup : Only K cleanup) (hagain : ∀ e, Only K (again e)) :
    ∀ e s, onException cleanup again e = some s → Only K s := by
  intro e s h
  cases e with
  | base name => cases h
  | _ =>
    cases h
    exact .bind hcleanup fun _ => hagain _

theorem onFailure_only (p : Prepared) : ∀ e s, onFailure p e = some s → Only Plain s := by
  intro e s h
  cases e with
  | policyViolation message =>
    cases h
    exact .bind (commitTrace_only _ _) fun _ => .pure _
  | exception text =>
    exact onException_only (commitTrace_only p.trace "error") Only.raise (.exception text) s h
  | base name => cases h

theorem appendMemoryToRequest_only (userId : String) :
    Only Plain (appendMemoryToRequest userId) := by
  refine .tryExcept ?_ (onException_only (.pure _) fun _ => .pure _)
  exact .bind (ask_only ⟨rfl, rfl, rfl⟩) fun _ => .bind (ask_only ⟨rfl, rfl, rfl⟩) fun _ => .pure _

theorem prepareUser_only (request : ModelRequest) (selected userId : String) :
    Only Plain (prepareUser request selected userId) := by
  refine .bind (ask_only ⟨rfl, rfl, rfl⟩) fun _ => .bind (ask_only ⟨rfl, rfl, rfl⟩) fun _ => ?_
  refine .bind (appendMemoryToRequest_only userId) fun _ => ?_
  refine .bind (ask_only ⟨rfl, rfl, rfl⟩) fun _ => .bind (ask_only ⟨rfl, rfl, rfl⟩) fun _ => ?_
  exact .bind (ask_only ⟨rfl, rfl, rfl⟩) fun _ => .pure _

theorem prepared_only (request : ModelRequest) : Only Plain (prepared request) := by
  refine .tryExcept (.bind ?_ fun _ => .pure _) ?_
  · refine .bind (ask_only ⟨rfl, rfl, rfl⟩) fun selected => ?_
    refine .bind (ask_only ⟨rfl, rfl, rfl⟩) fun _ => ?_
    refine .tryExcept ?_ (onException_only (ask_only ⟨rfl, rfl, rfl⟩) Only.raise)
    cases request.userId with
    | some userId => exact prepareUser_only request selected userId
    | none => exact .bind (ask_only ⟨rfl, rfl, rfl⟩) fun _ => .pure _
  · intro e s h
    cases e with
    | policyViolation message =>
      cases h
      exact .pure _
    | _ => cases h

theorem memoryValues_only (userId : String) : Only Plain (memoryValues userId) := by
  refine .tryExcept ?_ (onException_only (.pure _) fun _ => .pure _)
  exact .bind (ask_only ⟨rfl, rfl, rfl⟩) fun _ => ask_only ⟨rfl, rfl, rfl⟩

theorem mockTrace_only (state : MockState) (userId : String) :
    Only Plain (mockTrace state userId) := by
  refine .bind (ask_only ⟨rfl, rfl, rfl⟩) fun _ => .tryFinally ?_ (ask_only ⟨rfl, rfl, rfl⟩)
  exact .bind (ask_only ⟨rfl, rfl, rfl⟩) fun _ => ask_only ⟨rfl, rfl, rfl⟩

/-! ## The statements that ask the cache -/

section

variable {P : List LockEvent → Callee → Prop} {past : List LockEvent} {l : Option CacheLock}
  {key : Option String}

theorem getCachedResponse_guarded (h : ∀ k, key = some k → P past (.getJson k)) :
    Guarded P past l (getCachedResponse key) := by
  cases key with
  | none => exact .pure _
  | some k => exact .bind (.call (h k rfl)) fun _ _ _ _ => .pure _

theorem waitForCachedResponse_guarded (h : ∀ k, key = some k → P past (.waitForJson k)) :
    Guarded P past l (waitForCachedResponse key) := by
  cases key with
  | none => exact .pure _
  | some k => exact .bind (.call (h k rfl)) fun _ _ _ _ => .pure _

theorem takeLock_guarded (h : ∀ k, key = some k → P past (.acquireLock k)) :
    Guarded P past l (takeLock key) := by
  refine .bind ?_ fun _ _ _ _ => .bind (.assign _) fun _ _ _ _ => .pure _
  cases key with
  | none => exact .pure _
  | some k => exact .call (h k rfl)

end

/-! ## How the parts end

What is in the log of a part that has come to its end without raising. -/

variable {l l' : Option CacheLock} {log : List LockEvent}

/-- A statement leaves one entry in the log. -/
theorem exits_ask {callee : Callee} {a : Answer callee} (h : Exits (ask callee) l log (.ok a) l') :
    log = [⟨callee, .ok a⟩] := (exits_call h).1

/-- What a lookup under an optional key has come to -/
structure LookedUp (key : Option String) (log : List LockEvent) (found : Option ModelResponse) :
    Prop where
  hit : ∀ response, found = some response → ∃ k, key = some k ∧ Found log k response
  miss : found = none → Missed log

/-- Nothing was looked up, and nothing was found. -/
theorem lookedUp_nil {key : Option String} : LookedUp key [] none :=
  ⟨fun _ h => (by cases h), fun _ => missed_of (List.forall_mem_nil _)⟩

/-- The first lookup -/
theorem getCachedResponse_exits {key : Option String} {found : Option ModelResponse}
    (h : Exits (getCachedResponse key) l log (.ok found) l') : LookedUp key log found := by
  cases key with
  | none =>
    obtain ⟨rfl, hfound, -⟩ := exits_pure h
    cases hfound
    exact lookedUp_nil
  | some key =>
    obtain ⟨_, value, _, _, rfl, hget, hpure⟩ := exits_bind_ok h
    obtain ⟨rfl, hfound, -⟩ := exits_pure hpure
    rw [exits_ask hget, List.append_nil]
    rw [Except.ok.injEq] at hfound
    refine ⟨fun response hr => ⟨key, rfl, value, .inl List.mem_cons_self, hfound ▸ hr⟩, ?_⟩
    rintro hnone k response ⟨value', hmem | hmem, hvalue⟩
    · rw [List.mem_singleton] at hmem
      cases hmem
      rw [← hfound, hnone] at hvalue
      cases hvalue
    · rw [List.mem_singleton] at hmem
      cases hmem

/-- Waiting is looking up. -/
theorem waitForCachedResponse_exits {key : Option String} {found : Option ModelResponse}
    (h : Exits (waitForCachedResponse key) l log (.ok found) l') : LookedUp key log found := by
  cases key with
  | none =>
    obtain ⟨rfl, hfound, -⟩ := exits_pure h
    cases hfound
    exact lookedUp_nil
  | some key =>
    obtain ⟨_, lookup, _, _, rfl, hwait, hpure⟩ := exits_bind_ok h
    obtain ⟨rfl, hfound, -⟩ := exits_pure hpure
    rw [exits_ask hwait, List.append_nil]
    rw [Except.ok.injEq] at hfound
    subst hfound
    refine ⟨fun response hr => ?_, ?_⟩
    · obtain ⟨value, rfl, hvalue⟩ := Option.bind_eq_some_iff.mp hr
      exact ⟨key, rfl, value, .inr List.mem_cons_self, hvalue⟩
    · rintro hnone k response ⟨value, hmem | hmem, hvalue⟩
      · rw [List.mem_singleton] at hmem
        cases hmem
      · rw [List.mem_singleton] at hmem
        cases hmem
        rw [Option.bind_some, hvalue] at hnone
        cases hnone

/-- A lookup that has ended was answered. -/
theorem getCachedResponse_queried {k : String} {found : Option ModelResponse}
    (h : Exits (getCachedResponse (some k)) l log (.ok found) l') : Queried log k := by
  obtain ⟨_, value, _, _, rfl, hget, -⟩ := exits_bind_ok h
  rw [exits_ask hget]
  exact ⟨value, List.mem_append_left _ List.mem_cons_self⟩

theorem waitForCachedResponse_waited {k : String} {found : Option ModelResponse}
    (h : Exits (waitForCachedResponse (some k)) l log (.ok found) l') :
    ∃ lookup, ⟨.waitForJson k, .ok lookup⟩ ∈ log := by
  obtain ⟨_, lookup, _, _, rfl, hwait, -⟩ := exits_bind_ok h
  rw [exits_ask hwait]
  exact ⟨lookup, List.mem_append_left _ List.mem_cons_self⟩

/-- The lock was got or not, and nothing else has happened. -/
theorem takeLock_exits {k : String} {lock : Option CacheLock}
    (h : Exits (takeLock (some k)) l log (.ok lock) l') : log = [⟨.acquireLock k, .ok lock⟩] := by
  obtain ⟨_, acquired, _, _, rfl, hacquire, h⟩ := exits_bind_ok h
  obtain ⟨_, _, _, _, rfl, hassign, hpure⟩ := exits_bind_ok h
  obtain ⟨rfl, -, -⟩ := exits_assign hassign
  obtain ⟨rfl, hlock, -⟩ := exits_pure hpure
  cases hlock
  rw [exits_ask hacquire]
  rfl

/-- Taking the lock looks nothing up. -/
theorem takeLock_missed {key : Option String} {lock : Option CacheLock}
    (h : Exits (takeLock key) l log (.ok lock) l') : Missed log := by
  obtain ⟨_, acquired, _, _, rfl, hacquire, hassign⟩ := exits_bind_ok h
  obtain ⟨rfl, -, -⟩ := exits_hold hassign
  rw [List.append_nil]
  cases key with
  | none =>
    obtain ⟨rfl, -, -⟩ := exits_pure hacquire
    exact missed_of (List.forall_mem_nil _)
  | some key =>
    rw [exits_ask hacquire]
    exact missed_of (List.forall_mem_singleton.mpr rfl)

/-- What the preparation leaves -/
structure PreparedFor (userId : Option String) (p : Prepared) (log : List LockEvent) : Prop where
  user : p.userId = userId
  authorized : ∀ u, userId = some u → ⟨.authorizeModelAccess u p.selected, .ok ()⟩ ∈ log
  keyed : ∀ u, userId = some u → ∃ key, p.cacheKey = some key
  built : ∀ key, p.cacheKey = some key → ∃ u, userId = some u ∧ Built log u p.selected [] key

/-- What was prepared stays in the log. -/
theorem PreparedFor.mono {userId : Option String} {p : Prepared} {past : List LockEvent}
    (h : PreparedFor userId p log) (hsub : ∀ e ∈ log, e ∈ past) : PreparedFor userId p past :=
  ⟨h.user, fun u hu => hsub _ (h.authorized u hu), h.keyed, fun key hk =>
    (h.built key hk).imp fun _ hbuilt => ⟨hbuilt.1, hsub _ hbuilt.2⟩⟩

/-- The preparation for a user has let the user through and built the key. -/
theorem prepareUser_exits {request : ModelRequest} {selected userId : String} {p : Prepared}
    (h : Exits (prepareUser request selected userId) l log (.ok p) l') :
    PreparedFor (some userId) p log := by
  obtain ⟨_, _, _, _, rfl, hauthorize, h⟩ := exits_bind_ok h
  obtain ⟨_, _, _, _, rfl, _, h⟩ := exits_bind_ok h
  obtain ⟨_, _, _, _, rfl, _, h⟩ := exits_bind_ok h
  obtain ⟨_, _, _, _, rfl, _, h⟩ := exits_bind_ok h
  obtain ⟨_, key, _, _, rfl, hbuild, h⟩ := exits_bind_ok h
  obtain ⟨_, _, _, _, rfl, _, h⟩ := exits_bind_ok h
  obtain ⟨rfl, hp, -⟩ := exits_pure h
  cases hp
  rw [exits_ask hauthorize, exits_ask hbuild]
  refine ⟨rfl, fun u hu => ?_, fun _ _ => ⟨key, rfl⟩, fun k hk => ⟨userId, rfl, ?_⟩⟩
  · cases hu
    exact List.mem_cons_self
  · cases hk
    simp [Built]

/-- A cleanup that raises again does not answer. -/
theorem exits_onException_raise {α : Type} {cleanup : Code Unit} {e : Exn} {s : Code α} {a : α}
    (hs : onException cleanup raise e = some s) (h : Exits s l log (.ok a) l') : False := by
  cases e with
  | base name => cases hs
  | _ =>
    cases hs
    obtain ⟨_, _, _, _, -, -, h⟩ := exits_bind_ok h
    cases (exits_raise h).2.1

/-- What the preparation has in its log when it succeeds. -/
theorem prepareModelCall_exits {request : ModelRequest} {p : Prepared}
    (h : Exits (prepareModelCall request) l log (.ok p) l') :
    PreparedFor request.userId p log := by
  obtain ⟨first, selected, _, _, rfl, _, h⟩ := exits_bind_ok h
  obtain ⟨second, _, _, rest, rfl, _, h⟩ := exits_bind_ok h
  rcases exits_tryExcept h with h | ⟨_, _, _, _, s, _, -, hs, h⟩
  · have hprepared : PreparedFor request.userId p rest := by
      cases huser : request.userId with
      | some userId =>
        rw [huser] at h
        exact prepareUser_exits h
      | none =>
        rw [huser] at h
        obtain ⟨_, _, _, _, -, -, h⟩ := exits_bind_ok h
        obtain ⟨-, hp, -⟩ := exits_pure h
        cases hp
        exact ⟨rfl, fun _ hu => (by cases hu), fun _ hu => (by cases hu),
          fun _ hk => (by cases hk)⟩
    exact hprepared.mono fun e he => List.mem_append_right _ (List.mem_append_right _ he)
  · exact (exits_onException_raise hs h).elim

/-- The preparation, with or without a user -/
theorem prepared_exits {request : ModelRequest} {p : Prepared}
    (h : Exits (prepared request) l log (.ok (.inr p)) l') : PreparedFor request.userId p log := by
  rcases exits_tryExcept h with h | ⟨_, e, _, _, s, _, -, hs, h⟩
  · obtain ⟨_, _, _, _, rfl, hprepare, h⟩ := exits_bind_ok h
    obtain ⟨rfl, hp, -⟩ := exits_pure h
    cases hp
    rw [List.append_nil]
    exact prepareModelCall_exits hprepare
  · cases e with
    | policyViolation message =>
      cases hs
      cases (exits_pure h).2.1
    | exception text => cases hs
    | base name => cases hs

/-! ## The middleware -/

/-- The ways to wait for a response that somebody else computes -/
structure Waiting (wait : Option String → Code (Option ModelResponse)) : Prop where
  only : ∀ key, Only Free (wait key)
  guarded : ∀ {request : ModelRequest} {past : List LockEvent} {l : Option CacheLock} {key : Option String},
    Authorized past request.userId → (∀ k, key = some k → request.Due past (.waitForJson k)) →
      Guarded request.Due past l (wait key)
  exits : ∀ {key : Option String} {l log found l'}, Exits (wait key) l log (.ok found) l' →
    LookedUp key log found
  waited : ∀ {k : String} {l log found l'}, Exits (wait (some k)) l log (.ok found) l' →
    ∃ lookup, ⟨.waitForJson k, .ok lookup⟩ ∈ log

/-- The ways to run the handler -/
structure Handling (handle : Code ModelResponse) : Prop where
  guarded : ∀ {request : ModelRequest} {past : List LockEvent} {l : Option CacheLock},
    request.Due past .handler → Guarded request.Due past l handle
  exits : ∀ {l log response l'}, Exits handle l log (.ok response) l' →
    ⟨.handler, .ok response⟩ ∈ log ∧ ∀ e ∈ log, e.1 = .handler ∨ e.1 = .resume

/-- The synchronous way to wait -/
theorem waiting_wait : Waiting waitForCachedResponse :=
  ⟨waitForCachedResponse_only, fun _ => waitForCachedResponse_guarded, waitForCachedResponse_exits,
    waitForCachedResponse_waited⟩

/-- The asynchronous way to wait, which may be cancelled -/
theorem waiting_awaited : Waiting fun key => awaited (waitForCachedResponse key) := by
  refine ⟨fun key => ?_, fun hauthorized hdue => ?_, fun {key l log found l'} h => ?_, fun h => ?_⟩
  · exact .bind (waitForCachedResponse_only key) fun _ => .bind (ask_only rfl) fun _ => .pure _
  · refine .bind (waitForCachedResponse_guarded hdue) fun log _ _ _ => ?_
    exact .bind (.call (Plain.due ⟨rfl, rfl, rfl⟩ (hauthorized.append log))) fun _ _ _ _ => .pure _
  · obtain ⟨first, _, _, _, rfl, hwait, h⟩ := exits_bind_ok h
    obtain ⟨_, _, _, _, rfl, hresume, h⟩ := exits_bind_ok h
    obtain ⟨rfl, hfound, -⟩ := exits_pure h
    cases hfound
    have hlooked := waitForCachedResponse_exits hwait
    rw [exits_ask hresume, List.append_nil]
    refine ⟨fun response hr => ?_, fun hnone => ?_⟩
    · obtain ⟨k, hk, hf⟩ := hlooked.hit response hr
      exact ⟨k, hk, found_append.mpr (.inl hf)⟩
    · exact (hlooked.miss hnone).append (missed_of (List.forall_mem_singleton.mpr rfl))
  · obtain ⟨first, _, _, _, rfl, hwait, -⟩ := exits_bind_ok h
    exact (waitForCachedResponse_waited hwait).imp fun _ => List.mem_append_left _

theorem handling_ask : Handling (ask .handler) := by
  refine ⟨fun h => .call h, fun h => ?_⟩
  rw [exits_ask h]
  exact ⟨List.mem_cons_self, List.forall_mem_singleton.mpr (.inl rfl)⟩

theorem handling_awaited : Handling (awaited (ask .handler)) := by
  refine ⟨fun h => .bind (.call h) fun log _ _ _ => ?_, fun h => ?_⟩
  · have hauthorized := (h.1 rfl).append log
    exact .bind (.call (Plain.due ⟨rfl, rfl, rfl⟩ hauthorized)) fun _ _ _ _ => .pure _
  · obtain ⟨_, _, _, _, rfl, hhandler, h⟩ := exits_bind_ok h
    obtain ⟨_, _, _, _, rfl, hresume, h⟩ := exits_bind_ok h
    obtain ⟨rfl, hresponse, -⟩ := exits_pure h
    cases hresponse
    rw [exits_ask hhandler, exits_ask hresume]
    refine ⟨List.mem_cons_self, fun e he => ?_⟩
    simp only [List.append_nil, List.cons_append, List.nil_append, List.mem_cons,
      List.not_mem_nil, or_false] at he
    rcases he with rfl | rfl
    · exact .inl rfl
    · exact .inr rfl

section

variable {request : ModelRequest} {p : Prepared} {past : List LockEvent}

theorem due_of_only {α : Type} {x : Code α} (h : Only Plain x)
    (hauthorized : Authorized past request.userId) : Guarded request.Due past l x :=
  h.guarded fun rest _ hplain => hplain.due (hauthorized.append rest)

/-- Who was prepared for was let through. -/
theorem PreparedFor.allowed (h : PreparedFor request.userId p past) :
    Authorized past request.userId :=
  fun u hu => ⟨p.selected, h.authorized u hu⟩

/-- A lookup of the key that was prepared -/
theorem PreparedFor.lookupDue (h : PreparedFor request.userId p past) (hidle : Idle past)
    (hmissed : Missed past) {key : String} (hkey : p.cacheKey = some key) :
    LookupDue request.userId past key := by
  obtain ⟨u, hu, hbuilt⟩ := h.built key hkey
  exact ⟨⟨u, p.selected, [], hu, hbuilt⟩, hidle, hmissed⟩

/-- **The preparation** asks the policy first, and nothing of it counts or looks up. -/
theorem prepareUser_guarded {selected userId : String} (huser : request.userId = some userId) :
    Guarded request.Due past l (prepareUser request selected userId) := by
  refine .bind (.call (due_of_opens rfl)) fun _ _ _ hauthorize => due_of_only ?_ ?_
  · refine .bind (ask_only ⟨rfl, rfl, rfl⟩) fun _ => .bind (appendMemoryToRequest_only userId) fun _ => ?_
    refine .bind (ask_only ⟨rfl, rfl, rfl⟩) fun _ => .bind (ask_only ⟨rfl, rfl, rfl⟩) fun _ => ?_
    exact .bind (ask_only ⟨rfl, rfl, rfl⟩) fun _ => .pure _
  · rw [exits_ask hauthorize]
    intro u hu
    obtain rfl := Option.some.inj (huser.symm.trans hu)
    exact ⟨selected, List.mem_append_right _ List.mem_cons_self⟩

theorem prepared_guarded : Guarded request.Due past l (prepared request) := by
  refine .tryExcept (.bind ?_ fun _ _ _ _ => .pure _) fun _ e _ s _ hs => ?_
  · refine .bind (.call (due_of_opens rfl)) fun _ selected _ _ => ?_
    refine .bind (.call (due_of_opens rfl)) fun _ _ _ _ => ?_
    refine .tryExcept ?_ fun _ e _ s _ hs => ?_
    · cases huser : request.userId with
      | some userId => exact prepareUser_guarded huser
      | none =>
        refine due_of_only (.bind (ask_only ⟨rfl, rfl, rfl⟩) fun _ => .pure _) fun u hu => ?_
        rw [huser] at hu
        cases hu
    · have hclose : Only (fun callee => callee.opens = true) (ask .close) := ask_only rfl
      exact (onException_only hclose Only.raise e s hs).guarded fun _ _ hopens => due_of_opens hopens
  · cases e with
    | policyViolation message =>
      cases hs
      exact .pure _
    | _ => cases hs

/-- The statement that counts the call, when there is a user -/
theorem enforce_exits {u : Unit}
    (h : Exits (whenUser p.userId fun userId => ask (.enforceModel userId p.selected)) l log (.ok u)
      l') : (∀ userId, p.userId = some userId →
        ⟨.enforceModel userId p.selected, .ok ()⟩ ∈ log) ∧
      ∀ e ∈ log, ∃ userId, e.1 = .enforceModel userId p.selected := by
  cases huser : p.userId with
  | none =>
    rw [huser] at h
    obtain ⟨rfl, -, -⟩ := exits_pure h
    exact ⟨fun _ hu => (by cases hu), List.forall_mem_nil _⟩
  | some userId =>
    rw [huser] at h
    rw [exits_ask h]
    refine ⟨fun other hu => ?_, List.forall_mem_singleton.mpr ⟨userId, rfl⟩⟩
    cases hu
    exact List.mem_cons_self

/-- **A response is charged once**: nothing was charged before. -/
theorem finishModelCall_guarded {response : ModelResponse} (huser : p.userId = request.userId)
    (hauthorized : Authorized past request.userId) (hcharges : ∀ e ∈ past, e.1.charges = false)
    (hsource : ⟨.handler, .ok response⟩ ∈ past ∨
      ∃ userId selected key, request.userId = some userId ∧ Built past userId selected [] key ∧
        Found past key response) :
    Guarded request.Due past l (finishModelCall p response) := by
  refine .bind (.call (Plain.due ⟨rfl, rfl, rfl⟩ hauthorized)) fun usage total mid husage => ?_
  rw [exits_ask husage]
  have hcounted := hauthorized.append [⟨.tokenUsage response, .ok total⟩]
  refine .bind ?_ fun log _ _ _ => due_of_only (commitTrace_only _ _) (hcounted.append log)
  cases hp : p.userId with
  | none => exact .pure _
  | some userId =>
    have hrequest : request.userId = some userId := huser.symm.trans hp
    refine .call ⟨fun _ => hcounted, hrequest, ?_, response, by simp, ?_⟩
    · exact List.forall_mem_append.mpr ⟨hcharges, List.forall_mem_singleton.mpr rfl⟩
    · rcases hsource with hhandler | ⟨userId', selected, key, huser', hbuilt, hfound⟩
      · exact .inl (List.mem_append_left _ hhandler)
      · rw [hrequest, Option.some.injEq] at huser'
        subst huser'
        exact .inr ⟨selected, key, List.mem_append_left _ hbuilt, found_append.mpr (.inl hfound)⟩

/-- The statements that charge, when there is a user -/
theorem finishModelCall_exits {response : ModelResponse} {u : Unit}
    (h : Exits (finishModelCall p response) l log (.ok u) l') :
    (∀ userId, p.userId = some userId →
      ∃ total, ⟨.recordTokenUsage userId total, .ok ()⟩ ∈ log) ∧ ∀ e ∈ log, e.1.stores = false := by
  obtain ⟨first, total, _, _, rfl, husage, h⟩ := exits_bind_ok h
  obtain ⟨second, _, _, third, rfl, hrecord, htrace⟩ := exits_bind_ok h
  have htrace' : ∀ e ∈ third, e.1.stores = false := by
    cases ht : p.trace with
    | true =>
      rw [ht] at htrace
      rw [exits_ask htrace]
      exact List.forall_mem_singleton.mpr rfl
    | false =>
      rw [ht] at htrace
      obtain ⟨rfl, -, -⟩ := exits_pure htrace
      exact List.forall_mem_nil _
  rw [exits_ask husage]
  cases huser : p.userId with
  | none =>
    rw [huser] at hrecord
    obtain ⟨rfl, -, -⟩ := exits_pure hrecord
    exact ⟨fun _ hu => (by cases hu), List.forall_mem_append.mpr
      ⟨List.forall_mem_singleton.mpr rfl, htrace'⟩⟩
  | some userId =>
    rw [huser] at hrecord
    rw [exits_ask hrecord]
    refine ⟨fun other hu => ?_, ?_⟩
    · cases hu
      exact ⟨total, by simp⟩
    · exact List.forall_mem_append.mpr ⟨List.forall_mem_singleton.mpr rfl,
        List.forall_mem_append.mpr ⟨List.forall_mem_singleton.mpr rfl, htrace'⟩⟩

/-- The key of a call with a user was built for that user. -/
theorem PreparedFor.built_for {userId : Option String} (h : PreparedFor userId p past) {u : String}
    (hu : userId = some u) : ∃ key, p.cacheKey = some key ∧ Built past u p.selected [] key := by
  obtain ⟨key, hkey⟩ := h.keyed u hu
  obtain ⟨u', hu', hbuilt⟩ := h.built key hkey
  obtain rfl := Option.some.inj (hu.symm.trans hu')
  exact ⟨key, hkey, hbuilt⟩

/-- **The model is asked** after the policy has counted the call, and what it answers is stored
    after it was charged. -/
theorem askModel_guarded {handle : Code ModelResponse} (hhandle : Handling handle)
    (hprepared : PreparedFor request.userId p past) (hidle : Idle past) (hmissed : Missed past)
    (hasked : ∀ key, p.cacheKey = some key → Asked true past key) :
    Guarded request.Due past l (askModel handle p) := by
  have hauthorized := hprepared.allowed
  have hno : ∀ e ∈ past, e.1 ≠ .handler ∧ e.1.charges = false ∧ e.1.stores = false :=
    fun e he => spends_nothing (hidle e he)
  -- the policy counts the call
  refine .bind ?_ fun counted _ _ hcounted => ?_
  · cases huser : p.userId with
    | none => exact .pure _
    | some userId =>
      have hrequest : request.userId = some userId := hprepared.user.symm.trans huser
      obtain ⟨key, hkey, hbuilt⟩ := hprepared.built_for hrequest
      exact .call ⟨fun _ => hauthorized, hrequest, hidle, hmissed,
        hprepared.authorized userId hrequest, key, hbuilt, hasked key hkey⟩
  obtain ⟨henforced, hcounts⟩ := enforce_exits hcounted
  -- the model is made ready, which is plain
  refine .bind (.call (Plain.due ⟨rfl, rfl, rfl⟩ (hauthorized.append counted)))
    fun loaded _ _ hloaded => ?_
  rw [exits_ask hloaded]
  have hbetween : ∀ e ∈ counted ++ [(⟨.getChatModel p.selected, .ok ()⟩ : LockEvent)],
      e.1 ≠ .handler ∧ e.1.looks = false ∧ e.1.charges = false ∧ e.1.stores = false := by
    refine List.forall_mem_append.mpr ⟨fun e he => ?_, List.forall_mem_singleton.mpr ?_⟩
    · obtain ⟨userId, heq⟩ := hcounts e he
      rw [heq]
      exact ⟨fun h => (by cases h), rfl, rfl, rfl⟩
    · exact ⟨fun h => (by cases h), rfl, rfl, rfl⟩
  rw [List.append_assoc]
  -- the model is asked: nothing has asked it before, and no lookup came in between
  refine .bind (hhandle.guarded ⟨fun _ => hauthorized.append _, ?_, ?_, ?_⟩)
    fun handled response _ hhandled => ?_
  · exact List.forall_mem_append.mpr ⟨fun e he => (hno e he).1, fun e he => (hbetween e he).1⟩
  · exact hmissed.append (missed_of fun e he => (hbetween e he).2.1)
  · intro userId hu
    obtain ⟨key, hkey, hbuilt⟩ := hprepared.built_for hu
    refine ⟨p.selected, key, List.mem_append_left _ hbuilt, (hasked key hkey).append _, ?_⟩
    exact List.mem_append_right _
      (List.mem_append_left _ (henforced userId (hprepared.user.trans hu)))
  obtain ⟨hanswer, hafter⟩ := hhandle.exits hhandled
  have hlater : ∀ e ∈ handled, e.1.charges = false ∧ e.1.stores = false := by
    intro e he
    rcases hafter e he with heq | heq
    · rw [heq]
      exact ⟨rfl, rfl⟩
    · rw [heq]
      exact ⟨rfl, rfl⟩
  -- the answer is charged
  refine .bind (finishModelCall_guarded hprepared.user ((hauthorized.append _).append _) ?_ (.inl ?_))
    fun charged _ _ hcharged => ?_
  · refine List.forall_mem_append.mpr ⟨List.forall_mem_append.mpr ⟨fun e he => (hno e he).2.1,
      fun e he => (hbetween e he).2.2.1⟩, fun e he => (hlater e he).1⟩
  · exact List.mem_append_right _ hanswer
  obtain ⟨hrecorded, hstores⟩ := finishModelCall_exits hcharged
  refine .bind ?_ fun _ _ _ _ => .pure _
  -- the answer is stored, if it is a text that can be
  unfold storeResponse
  split
  · rename_i key content hkey hcontent
    obtain ⟨userId, hu, hbuilt⟩ := hprepared.built key hkey
    obtain ⟨total, hrecord⟩ := hrecorded userId (hprepared.user.trans hu)
    cases response with
    | other => cases hcontent
    | reply text cacheHit =>
      obtain rfl := text_of_cacheable hcontent
      refine .call ⟨fun _ => ((hauthorized.append _).append _).append _, ?_, userId, p.selected,
        total, cacheHit, hu, ?_, ?_, ?_⟩
      · refine List.forall_mem_append.mpr ⟨List.forall_mem_append.mpr ⟨List.forall_mem_append.mpr
          ⟨fun e he => (hno e he).2.2, fun e he => (hbetween e he).2.2.2⟩,
          fun e he => (hlater e he).2⟩, hstores⟩
      · exact List.mem_append_left _ (List.mem_append_left _ (List.mem_append_left _ hbuilt))
      · exact List.mem_append_left _ (List.mem_append_right _ hanswer)
      · exact List.mem_append_right _ hrecord
  · exact .pure _

/-- A cached response is charged like any other. -/
theorem answerCached_guarded {response : ModelResponse} {key : String}
    (hprepared : PreparedFor request.userId p past) (hidle : Idle past)
    (hkey : p.cacheKey = some key) (hfound : Found past key response) :
    Guarded request.Due past l (answerCached p response) := by
  obtain ⟨userId, hu, hbuilt⟩ := hprepared.built key hkey
  exact .bind (finishModelCall_guarded hprepared.user hprepared.allowed
    (fun e he => (spends_nothing (hidle e he)).2.1)
    (.inr ⟨userId, p.selected, key, hu, hbuilt, hfound⟩)) fun _ _ _ _ => .pure _

/-- The second lookup -/
theorem lookAgain_guarded {wait : Option String → Code (Option ModelResponse)} (hwait : Waiting wait)
    (hprepared : PreparedFor request.userId p past) (hidle : Idle past) (hmissed : Missed past)
    {lock : Option CacheLock}
    (hlock : ∀ key, p.cacheKey = some key → ⟨.acquireLock key, .ok lock⟩ ∈ past) :
    Guarded request.Due past l (lookAgain wait p.cacheKey lock) := by
  have hauthorized := hprepared.allowed
  unfold lookAgain
  split
  · refine hwait.guarded hauthorized fun key hkey => ⟨fun _ => hauthorized, ?_, ?_⟩
    · exact hprepared.lookupDue hidle hmissed hkey
    · exact hlock key hkey
  · refine getCachedResponse_guarded fun key hkey => ⟨fun _ => hauthorized, ?_⟩
    exact hprepared.lookupDue hidle hmissed hkey
  · exact .pure _

theorem lookAgain_only {wait : Option String → Code (Option ModelResponse)} (hwait : Waiting wait)
    (lock : Option CacheLock) : Only Free (lookAgain wait p.cacheKey lock) := by
  unfold lookAgain
  split
  · exact hwait.only _
  · exact getCachedResponse_only _
  · exact .pure _

/-- What a call knows when it is about to ask the model. -/
theorem lookAgain_exits {wait : Option String → Code (Option ModelResponse)} (hwait : Waiting wait)
    {lock : Option CacheLock} {found : Option ModelResponse}
    (h : Exits (lookAgain wait p.cacheKey lock) l log (.ok found) l') :
    LookedUp p.cacheKey log found := by
  unfold lookAgain at h
  split at h
  · exact hwait.exits h
  · exact getCachedResponse_exits h
  · obtain ⟨rfl, hnone, -⟩ := exits_pure h
    cases hnone
    exact lookedUp_nil

/-- With a key the call has waited, or looked again with the lock. -/
theorem lookAgain_asked {wait : Option String → Code (Option ModelResponse)} (hwait : Waiting wait)
    {lock : Option CacheLock} {found : Option ModelResponse} {key : String}
    (hkey : p.cacheKey = some key)
    (h : Exits (lookAgain wait p.cacheKey lock) l log (.ok found) l') :
    (lock = none → ∃ lookup, ⟨.waitForJson key, .ok lookup⟩ ∈ log) ∧
      (lock ≠ none → Queried log key) := by
  rw [hkey] at h
  cases lock with
  | none => exact ⟨fun _ => hwait.waited h, fun hne => absurd rfl hne⟩
  | some lock => exact ⟨fun hnone => (by cases hnone), fun _ => getCachedResponse_queried h⟩

/-- **The model is asked only when the cache has nothing**, the first time and with the lock. -/
theorem answer_guarded {wait : Option String → Code (Option ModelResponse)}
    {handle : Code ModelResponse} (hwait : Waiting wait) (hhandle : Handling handle)
    (hprepared : PreparedFor request.userId p past) (hidle : Idle past) (hmissed : Missed past) :
    Guarded request.Due past l (answer wait handle p) := by
  -- the first lookup
  refine .bind (getCachedResponse_guarded fun key hkey => ?_) fun first cached _ hfirst => ?_
  · exact ⟨fun _ => hprepared.allowed, hprepared.lookupDue hidle hmissed hkey⟩
  have hidle₁ : Idle (past ++ first) :=
    hidle.append fun e he => (getCachedResponse_only p.cacheKey).mem hfirst he
  have hlooked := getCachedResponse_exits hfirst
  have hprepared₁ := hprepared.mono fun e he => List.mem_append_left first he
  cases cached with
  | some cached =>
    obtain ⟨key, hkey, hfound⟩ := hlooked.hit cached rfl
    exact answerCached_guarded hprepared₁ hidle₁ hkey (found_append.mpr (.inr hfound))
  | none =>
    have hmissed₁ := hmissed.append (hlooked.miss rfl)
    have hqueried : ∀ key, p.cacheKey = some key → Queried (past ++ first) key := by
      intro key hkey
      rw [hkey] at hfirst
      exact (getCachedResponse_queried hfirst).imp fun _ => List.mem_append_right past
    -- it has missed: the lock is asked for
    refine .bind (takeLock_guarded fun key hkey => ?_) fun second lock _ hsecond => ?_
    · exact ⟨fun _ => hprepared₁.allowed, hprepared₁.lookupDue hidle₁ hmissed₁ hkey,
        hqueried key hkey⟩
    have hidle₂ : Idle (past ++ first ++ second) :=
      hidle₁.append fun e he => (takeLock_only p.cacheKey).mem hsecond he
    have hmissed₂ := hmissed₁.append (takeLock_missed hsecond)
    have hprepared₂ := hprepared₁.mono fun e he => List.mem_append_left second he
    have hlocked : ∀ key, p.cacheKey = some key → second = [⟨.acquireLock key, .ok lock⟩] := by
      intro key hkey
      rw [hkey] at hsecond
      exact takeLock_exits hsecond
    -- the second lookup, with the lock or by waiting
    refine .bind (lookAgain_guarded hwait hprepared₂ hidle₂ hmissed₂ fun key hkey => ?_)
      fun third again _ hthird => ?_
    · rw [hlocked key hkey]
      exact List.mem_append_right _ List.mem_cons_self
    have hagain := lookAgain_exits hwait hthird
    have hidle₃ : Idle (past ++ first ++ second ++ third) :=
      hidle₂.append fun e he => (lookAgain_only hwait lock).mem hthird he
    have hprepared₃ := hprepared₂.mono fun e he => List.mem_append_left third he
    cases again with
    | some again =>
      obtain ⟨key, hkey, hfound⟩ := hagain.hit again rfl
      exact answerCached_guarded hprepared₃ hidle₃ hkey (found_append.mpr (.inr hfound))
    | none =>
      -- both have missed
      refine askModel_guarded hhandle hprepared₃ hidle₃ (hmissed₂.append (hagain.miss rfl)) ?_
      intro key hkey
      obtain ⟨hwaited, hlooked⟩ := lookAgain_asked hwait hkey hthird
      refine ⟨past ++ first, lock, third, ?_, hqueried key hkey, hwaited, fun _ => hlooked⟩
      rw [hlocked key hkey, List.append_assoc, List.singleton_append]

/-- The middleware as a whole -/
theorem modelCall_guarded {wait : Option String → Code (Option ModelResponse)}
    {handle : Code ModelResponse} (hwait : Waiting wait) (hhandle : Handling handle) :
    Guarded request.Due [] l (modelCall wait handle request) := by
  have honly := prepared_only request
  refine .bind prepared_guarded fun first p _ hfirst => ?_
  rw [List.nil_append]
  cases p with
  | inl response => exact .pure _
  | inr p =>
    have hprepared := prepared_exits hfirst
    refine .tryFinally (.tryExcept ?_ fun log e _ s _ hs => ?_) fun log _ _ _ => ?_
    · refine answer_guarded hwait hhandle hprepared (fun e he => (honly.mem hfirst he).free) ?_
      exact missed_of fun e he => (honly.mem hfirst he).blind
    · exact due_of_only (onFailure_only p e s hs) (hprepared.allowed.append log)
    · exact due_of_only release_only (hprepared.allowed.append log)

end

/-! ## The mock graph -/

section

variable {state : MockState} {past : List LockEvent}

theorem mock_due_of_only {α : Type} {x : Code α} (h : Only Plain x)
    (hauthorized : Authorized past state.userId) : Guarded state.Due past l x :=
  h.guarded fun rest _ hplain => hplain.mockDue (hauthorized.append rest)

/-- What the first session leaves: a cached text was found under the key of the memories; without
    one the user was counted. -/
structure MockLooked (state : MockState) (looked : Looked) (log : List LockEvent) : Prop where
  authorized : Authorized log state.userId
  nobody : state.userId = none → looked.memory = []
  remembered : ∀ userId, state.userId = some userId → Remembered log userId looked.memory
  built : ∀ key, looked.cacheKey = some key → ∃ userId, state.userId = some userId ∧
    Built log userId state.selected looked.memory key ∧
      (looked.cached = none → ⟨.enforceModel userId state.selected, .ok ()⟩ ∈ log)
  found : ∀ text, looked.cached = some text → ∃ key response, looked.cacheKey = some key ∧
    Found log key response ∧ text = response.text

theorem found_of_mem {rest : List LockEvent} (hsub : ∀ e ∈ rest, e ∈ past) {key : String}
    {response : ModelResponse} (h : Found rest key response) : Found past key response := by
  obtain ⟨value, hmem, hvalue⟩ := h
  exact ⟨value, hmem.imp (hsub _) (hsub _), hvalue⟩

/-- What was looked up stays in the log. -/
theorem MockLooked.mono {looked : Looked} (h : MockLooked state looked log)
    (hsub : ∀ e ∈ log, e ∈ past) : MockLooked state looked past := by
  refine ⟨h.authorized.mono hsub, h.nobody, fun userId hu => (h.remembered userId hu).mono hsub,
    fun key hkey => ?_, fun text htext => ?_⟩
  · obtain ⟨userId, hu, hbuilt, hcounted⟩ := h.built key hkey
    exact ⟨userId, hu, hsub _ hbuilt, fun hnone => hsub _ (hcounted hnone)⟩
  · obtain ⟨key, response, hkey, hfound, heq⟩ := h.found text htext
    exact ⟨key, response, hkey, found_of_mem hsub hfound, heq⟩

theorem mockWait_only (key : String) (lock : Option CacheLock) : Only Free (mockWait key lock) := by
  cases lock with
  | some lock => exact .pure _
  | none => exact waitForCachedResponse_only (some key)

/-- Waiting in the mock graph -/
theorem mockWait_exits {key : String} {lock : Option CacheLock} {found : Option ModelResponse}
    (h : Exits (mockWait key lock) l log (.ok found) l') : LookedUp (some key) log found := by
  cases lock with
  | some lock =>
    obtain ⟨rfl, hnone, -⟩ := exits_pure h
    cases hnone
    exact lookedUp_nil
  | none => exact waitForCachedResponse_exits h

/-- Where the service raises there are no memories. -/
theorem memoryValues_exits {userId : String} {memory : List (String × String)}
    (h : Exits (memoryValues userId) l log (.ok memory) l') : Remembered log userId memory := by
  rcases exits_tryExcept h with h | ⟨first, e, _, last, s, rfl, hfirst, hs, h⟩
  · obtain ⟨_, deleted, _, _, rfl, -, hmap⟩ := exits_bind_ok h
    rw [exits_ask hmap]
    exact .inl ⟨_, List.mem_append_right _ List.mem_cons_self⟩
  · refine .inr ⟨?_, ?_⟩
    · cases e with
      | base name => cases hs
      | _ =>
        cases hs
        obtain ⟨_, _, _, _, -, -, h⟩ := exits_bind_ok h
        exact (Except.ok.inj (exits_pure h).2.1)
    · rcases exits_bind hfirst with ⟨err, hraised, -⟩ | ⟨_, deleted, _, _, rfl, -, hmap⟩
      · obtain ⟨rfl, -⟩ := exits_call hraised
        exact ⟨_, List.mem_append_left _ List.mem_cons_self, ⟨err, rfl⟩, .inl rfl⟩
      · obtain ⟨rfl, -⟩ := exits_call hmap
        refine ⟨_, List.mem_append_left _ (List.mem_append_right _ List.mem_cons_self), ⟨e, rfl⟩, ?_⟩
        exact .inr ⟨_, rfl⟩

/-- What follows the first lookup, which has found nothing -/
theorem mockLocked_guarded {userId key : String} {memory : List (String × String)}
    {lock : Option CacheLock} (huser : state.userId = some userId)
    (hauthorized : ⟨.authorizeModelAccess userId state.selected, .ok ()⟩ ∈ past)
    (hbuilt : Built past userId state.selected memory key) (hidle : Idle past)
    (hmissed : Missed past) (hqueried : Queried past key) :
    Guarded state.Due (past ++ [⟨.acquireLock key, .ok lock⟩]) l
      (mockLocked state userId memory key lock) := by
  have hallowed : Authorized past state.userId := by
    intro u hu
    obtain rfl := Option.some.inj (huser.symm.trans hu)
    exact ⟨state.selected, hauthorized⟩
  have hallowed₁ := hallowed.append [⟨.acquireLock key, .ok lock⟩]
  have hidle₁ : Idle (past ++ [⟨.acquireLock key, .ok lock⟩]) :=
    hidle.append (List.forall_mem_singleton.mpr rfl)
  have hmissed₁ : Missed (past ++ [⟨.acquireLock key, .ok lock⟩]) :=
    hmissed.append (missed_of (List.forall_mem_singleton.mpr rfl))
  have hbuilt₁ := List.mem_append_left [(⟨.acquireLock key, .ok lock⟩ : LockEvent)] hbuilt
  -- with the lock nothing is looked up again; without it the call waits
  have hwait : Guarded state.Due (past ++ [⟨.acquireLock key, .ok lock⟩]) l (mockWait key lock) := by
    cases lock with
    | some lock => exact .pure _
    | none =>
      have hdue : ∀ k, some key = some k →
          state.Due (past ++ [⟨.acquireLock key, .ok none⟩]) (.waitForJson k) := by
        intro k hk
        obtain rfl := Option.some.inj hk
        exact ⟨fun _ => hallowed₁, ⟨⟨userId, state.selected, memory, huser, hbuilt₁⟩, hidle₁,
          hmissed₁⟩, List.mem_append_right _ List.mem_cons_self⟩
      exact waitForCachedResponse_guarded hdue
  refine .bind hwait fun last again _ hlast => ?_
  cases again with
  | some again => exact .pure _
  | none =>
    refine .bind (.call ⟨fun _ => hallowed₁.append last, huser, rfl, ?_, ?_, ?_, memory, key, ?_, ?_⟩)
      fun _ _ _ _ => .pure _
    · exact hidle₁.append fun e he => (mockWait_only key lock).mem hlast he
    · exact hmissed₁.append ((mockWait_exits hlast).miss rfl)
    · exact List.mem_append_left _ (List.mem_append_left _ hauthorized)
    · exact List.mem_append_left _ hbuilt₁
    · refine ⟨past, lock, last, by simp, hqueried, fun hnone => ?_, fun hagain => (by cases hagain)⟩
      subst hnone
      exact waitForCachedResponse_waited hlast

theorem mockLookup_guarded {userId : String} (huser : state.userId = some userId)
    (hidle : Idle past) (hmissed : Missed past) :
    Guarded state.Due past l (mockLookup state userId) := by
  refine .bind (.call (mockDue_of_opens rfl)) fun _ _ _ hauthorize => ?_
  rw [exits_ask hauthorize]
  have hallowed : Authorized
      (past ++ [⟨.authorizeModelAccess userId state.selected, .ok ()⟩]) state.userId := by
    intro u hu
    obtain rfl := Option.some.inj (huser.symm.trans hu)
    exact ⟨state.selected, List.mem_append_right _ List.mem_cons_self⟩
  have hmemory := memoryValues_only userId
  refine .bind (mock_due_of_only hmemory hallowed) fun first memory _ hfirst => ?_
  refine .bind (.call (Plain.mockDue ⟨rfl, rfl, rfl⟩ (hallowed.append first))) fun _ key _ hbuild => ?_
  rw [exits_ask hbuild]
  -- what has been issued when the key has been built
  have hauthorized : ∀ rest : List LockEvent,
      ⟨.authorizeModelAccess userId state.selected, .ok ()⟩ ∈
        past ++ [⟨.authorizeModelAccess userId state.selected, .ok ()⟩] ++ first ++
          [⟨.buildCacheKey userId state.selected memory, .ok key⟩] ++ rest := by
    intro rest
    simp
  have hbuilt : Built (past ++ [⟨.authorizeModelAccess userId state.selected, .ok ()⟩] ++ first ++
      [⟨.buildCacheKey userId state.selected memory, .ok key⟩]) userId state.selected memory key :=
    List.mem_append_right _ List.mem_cons_self
  have hidle₁ : Idle (past ++ [⟨.authorizeModelAccess userId state.selected, .ok ()⟩] ++ first ++
      [⟨.buildCacheKey userId state.selected memory, .ok key⟩]) := by
    refine Idle.append (Idle.append (Idle.append hidle ?_) fun e he => ?_) ?_
    · exact List.forall_mem_singleton.mpr rfl
    · exact (hmemory.mem hfirst he).free
    · exact List.forall_mem_singleton.mpr rfl
  have hmissed₁ : Missed (past ++ [⟨.authorizeModelAccess userId state.selected, .ok ()⟩] ++ first ++
      [⟨.buildCacheKey userId state.selected memory, .ok key⟩]) := by
    refine Missed.append (Missed.append (Missed.append hmissed ?_) ?_) ?_
    · exact missed_of (List.forall_mem_singleton.mpr rfl)
    · exact missed_of fun e he => (hmemory.mem hfirst he).blind
    · exact missed_of (List.forall_mem_singleton.mpr rfl)
  have hallowed₁ := (hallowed.append first).append
    [⟨.buildCacheKey userId state.selected memory, .ok key⟩]
  generalize past ++ [⟨.authorizeModelAccess userId state.selected, .ok ()⟩] ++ first ++
    [⟨.buildCacheKey userId state.selected memory, .ok key⟩] = past₁ at *
  refine .bind (getCachedResponse_guarded fun k hk => ?_) fun second cached _ hsecond => ?_
  · cases hk
    exact ⟨fun _ => hallowed₁, ⟨userId, state.selected, memory, huser, hbuilt⟩, hidle₁, hmissed₁⟩
  cases cached with
  | some cached => exact .pure _
  | none =>
    have hbuilt₂ := List.mem_append_left second hbuilt
    have hidle₂ : Idle (past₁ ++ second) :=
      hidle₁.append fun e he => (getCachedResponse_only (some key)).mem hsecond he
    have hmissed₂ := hmissed₁.append ((getCachedResponse_exits hsecond).miss rfl)
    have hqueried : Queried (past₁ ++ second) key :=
      (getCachedResponse_queried hsecond).imp fun _ => List.mem_append_right past₁
    refine .bind (takeLock_guarded fun k hk => ?_) fun third lock _ hthird => ?_
    · cases hk
      exact ⟨fun _ => hallowed₁.append second,
        ⟨⟨userId, state.selected, memory, huser, hbuilt₂⟩, hidle₂, hmissed₂⟩, hqueried⟩
    rw [takeLock_exits hthird]
    exact mockLocked_guarded huser (hauthorized second) hbuilt₂ hidle₂ hmissed₂ hqueried

/-- The lookup of the mock graph, to its end -/
theorem mockLookup_exits {userId : String} {looked : Looked} (huser : state.userId = some userId)
    (h : Exits (mockLookup state userId) l log (.ok looked) l') : MockLooked state looked log := by
  obtain ⟨_, _, _, _, rfl, hauthorize, h⟩ := exits_bind_ok h
  obtain ⟨first, memory, _, _, rfl, hmemory, h⟩ := exits_bind_ok h
  obtain ⟨_, key, _, rest, rfl, hbuild, h⟩ := exits_bind_ok h
  obtain ⟨_, cached, _, rest, rfl, hget, h⟩ := exits_bind_ok h
  rw [exits_ask hauthorize, exits_ask hbuild]
  have hauthorized : ∀ rest : List LockEvent, Authorized
      (⟨.authorizeModelAccess userId state.selected, .ok ()⟩ :: rest) state.userId := by
    intro rest u hu
    obtain rfl := Option.some.inj (huser.symm.trans hu)
    exact ⟨state.selected, List.mem_cons_self⟩
  have hremembered : ∀ rest : List LockEvent, ∀ u, state.userId = some u → Remembered
      (⟨.authorizeModelAccess userId state.selected, .ok ()⟩ :: (first ++ rest)) u memory := by
    intro rest u hu
    obtain rfl := Option.some.inj (huser.symm.trans hu)
    exact (memoryValues_exits hmemory).mono fun e he =>
      List.mem_cons_of_mem _ (List.mem_append_left rest he)
  have hnobody : state.userId = none → memory = [] := fun hnone => by rw [hnone] at huser; cases huser
  cases cached with
  | some cached =>
    obtain ⟨rfl, hlooked, -⟩ := exits_pure h
    cases hlooked
    obtain ⟨_, hk, hfound⟩ := (getCachedResponse_exits hget).hit cached rfl
    obtain rfl := Option.some.inj hk
    refine ⟨hauthorized _, hnobody, hremembered _, fun k hk => ?_, fun text htext => ?_⟩
    · cases hk
      exact ⟨userId, huser, by simp [Built], fun hnone => (by cases hnone)⟩
    · cases htext
      exact ⟨_, cached, rfl, found_of_mem (fun e he => by simp [he]) hfound, rfl⟩
  | none =>
    obtain ⟨_, lock, _, _, rfl, _, h⟩ := exits_bind_ok h
    obtain ⟨_, again, _, _, rfl, hwait, h⟩ := exits_bind_ok h
    cases again with
    | some again =>
      obtain ⟨rfl, hlooked, -⟩ := exits_pure h
      cases hlooked
      obtain ⟨_, hk, hfound⟩ := (mockWait_exits hwait).hit again rfl
      obtain rfl := Option.some.inj hk
      refine ⟨hauthorized _, hnobody, hremembered _, fun k hk => ?_, fun text htext => ?_⟩
      · cases hk
        exact ⟨userId, huser, by simp [Built], fun hnone => (by cases hnone)⟩
      · cases htext
        exact ⟨_, again, rfl, found_of_mem (fun e he => by simp [he]) hfound, rfl⟩
    | none =>
      obtain ⟨_, _, _, _, rfl, henforce, h⟩ := exits_bind_ok h
      obtain ⟨rfl, hlooked, -⟩ := exits_pure h
      cases hlooked
      rw [exits_ask henforce]
      refine ⟨hauthorized _, hnobody, hremembered _, fun k hk => ?_, fun _ htext => (by cases htext)⟩
      cases hk
      exact ⟨userId, huser, by simp [Built], fun _ => by simp⟩

theorem mockLookup_only (state : MockState) (userId : String) :
    Only (fun callee => callee.stores = false) (mockLookup state userId) := by
  have hfree : ∀ callee, Free callee → callee.stores = false :=
    fun _ h => (spends_nothing h).2.2
  refine .bind (ask_only rfl) fun _ => .bind ?_ fun memory => .bind (ask_only rfl) fun key => ?_
  · exact (memoryValues_only userId).mono fun callee h => hfree callee h.free
  refine .bind ((getCachedResponse_only _).mono hfree) fun cached => ?_
  cases cached with
  | some cached => exact .pure _
  | none =>
    refine .bind ((takeLock_only _).mono hfree) fun lock => ?_
    refine .bind ((mockWait_only key lock).mono hfree) fun again => ?_
    cases again with
    | some again => exact .pure _
    | none => exact .bind (ask_only rfl) fun _ => .pure _

/-- **The mock graph** stores the text it has made of what the key was built with. -/
theorem mockReply_guarded {looked : Looked} (hlooked : MockLooked state looked past)
    (hstores : ∀ e ∈ past, e.1.stores = false) :
    Guarded state.Due past l (mockReply state looked) := by
  have htrace : Only Plain (whenUser state.userId (mockTrace state)) := by
    cases state.userId with
    | some userId => exact mockTrace_only state userId
    | none => exact .pure _
  refine .bind (mock_due_of_only htrace hlooked.authorized) fun traced _ _ htraced => ?_
  refine .bind ?_ fun _ _ _ _ => .pure _
  unfold mockStore
  split
  · rename_i hnone
    rw [Option.isNone_iff_eq_none] at hnone
    unfold storeResponse
    split
    · rename_i key content hkey hcontent
      obtain ⟨userId, hu, hbuilt, hcounted⟩ := hlooked.built key hkey
      have htext : mockText state looked = content := text_of_cacheable hcontent
      refine .call ⟨fun _ => hlooked.authorized.append _, ?_, userId, looked.memory, hu, ?_, ?_, ?_, ?_⟩
      · have hfree : ∀ e ∈ traced, Free e.1 := fun e he => (htrace.mem htraced he).free
        exact List.forall_mem_append.mpr ⟨hstores, fun e he => (spends_nothing (hfree e he)).2.2⟩
      · exact List.mem_append_left _ hbuilt
      · exact (hlooked.remembered userId hu).mono fun _ => List.mem_append_left _
      · exact List.mem_append_left _ (hcounted hnone)
      · rw [← htext, ← hkey, ← hnone]
    · exact .pure _
  · exact .pure _

/-- What the first session of the mock graph ends with -/
theorem mockSession_exits {looked : Looked} (h : Exits (mockSession state) l log (.ok looked) l') :
    MockLooked state looked log ∧ ∀ e ∈ log, e.1.stores = false := by
  unfold mockSession at h
  split at h
  · rename_i hnone
    obtain ⟨rfl, hlooked, -⟩ := exits_pure h
    cases hlooked
    refine ⟨⟨fun _ hu => ?_, fun _ => rfl, fun _ hu => ?_, fun _ hk => (by cases hk),
      fun _ ht => (by cases ht)⟩, List.forall_mem_nil _⟩
    · rw [hnone] at hu
      cases hu
    · rw [hnone] at hu
      cases hu
  · rename_i userId huser
    obtain ⟨_, _, _, _, rfl, hsession, h⟩ := exits_bind_ok h
    obtain ⟨body, res, _, last, done, rfl, hbody, hlast, hout⟩ := exits_tryFinally h
    have hanswered : res = .ok looked := by
      cases done with
      | ok u => exact hout.symm
      | error e => cases hout
    subst hanswered
    obtain ⟨rfl, -⟩ := exits_call hlast
    rw [exits_ask hsession]
    refine ⟨(mockLookup_exits huser hbody).mono fun e he => by simp [he], ?_⟩
    refine List.forall_mem_append.mpr ⟨List.forall_mem_singleton.mpr rfl, ?_⟩
    exact List.forall_mem_append.mpr ⟨fun e he => (mockLookup_only state userId).mem hbody he,
      List.forall_mem_singleton.mpr rfl⟩

/-- The mock graph as a whole -/
theorem mockChat_guarded : Guarded state.Due [] l (mockChat state) := by
  have hsession : Guarded state.Due [] l (mockSession state) := by
    unfold mockSession
    split
    · exact .pure _
    · rename_i userId huser
      refine .bind (.call (mockDue_of_opens rfl)) fun _ _ _ hopened => ?_
      rw [exits_ask hopened]
      refine .tryFinally (mockLookup_guarded huser ?_ ?_) fun _ _ _ _ => .call (mockDue_of_opens rfl)
      · exact List.forall_mem_singleton.mpr rfl
      · exact missed_of (List.forall_mem_singleton.mpr rfl)
  refine .bind (.bind hsession fun first looked _ hfirst => ?_) fun log _ _ hheld => ?_
  · obtain ⟨hlooked, hstores⟩ := mockSession_exits hfirst
    exact mockReply_guarded hlooked hstores
  · obtain ⟨first, looked, _, rest, rfl, hfirst, -⟩ := exits_bind_ok hheld
    have hauthorized := (mockSession_exits hfirst).1.authorized.append rest
    refine mock_due_of_only (.bind .locals fun lock => ?_) hauthorized
    exact .bind (ask_only ⟨rfl, rfl, rfl⟩) fun _ => .pure _

end

/-- Either kind of call -/
theorem call_guarded (call : ChatCall) : Guarded call.Due [] l call.run := by
  cases call with
  | wrapModelCall request => exact modelCall_guarded waiting_wait handling_ask
  | awrapModelCall request => exact modelCall_guarded waiting_awaited handling_awaited
  | mockChat state => exact mockChat_guarded

/-- **Every statement of a call is due when it is issued.** -/
theorem statements_due (call : ChatCall) {log : List LockEvent} {out : Except Exn ModelResponse}
    {held : Option CacheLock} (h : Exits call.run none log out held) {before rest : List LockEvent}
    {e : LockEvent} (he : log = before ++ e :: rest) : call.Due before e.1 := by
  have hguarded : Guarded call.Due [] none call.run := call_guarded call
  exact hguarded.of_path h he

/-- A run of the middleware that stores what the model answers -/
def storedLog : List LockEvent :=
  [⟨.resolveModel, .ok "glm-5.2"⟩,
    ⟨.sessionLocal, .ok ()⟩,
    ⟨.authorizeModelAccess "u" "glm-5.2", .ok ()⟩,
    ⟨.ensureConversation "u" none "glm-5.2", .ok ()⟩,
    ⟨.rememberFromMessages "u", .ok []⟩,
    ⟨.buildMemorySystemPrompt "u" true, .ok ""⟩,
    ⟨.normalizeMultimodalMessages "glm-5.2", .ok ()⟩,
    ⟨.buildCacheKey "u" "glm-5.2" [], .ok "k"⟩,
    ⟨.addTrace "model:glm-5.2", .ok ()⟩,
    ⟨.getJson "k", .ok .null⟩,
    ⟨.acquireLock "k", .ok (some ⟨"cache:lock:k", "t"⟩)⟩,
    ⟨.getJson "k", .ok .null⟩,
    ⟨.enforceModel "u" "glm-5.2", .ok ()⟩,
    ⟨.getChatModel "glm-5.2", .ok ()⟩,
    ⟨.handler, .ok (.reply "你好" false)⟩,
    ⟨.tokenUsage (.reply "你好" false), .ok 7⟩,
    ⟨.recordTokenUsage "u" 7, .ok ()⟩,
    ⟨.commitTrace "success", .ok ()⟩,
    ⟨.setJson "k" "你好", .ok true⟩,
    ⟨.releaseLock (some ⟨"cache:lock:k", "t"⟩), .ok true⟩,
    ⟨.close, .ok ()⟩]

/-- What the model has answered was charged before it is stored. -/
theorem statements_due_stored :
    (ChatCall.wrapModelCall ⟨some "u", none⟩).Due (storedLog.take 18) (.setJson "k" "你好") := by
  have hexits : Exits (ChatCall.wrapModelCall ⟨some "u", none⟩).run none storedLog
      (.ok (.reply "你好" false)) (some ⟨"cache:lock:k", "t"⟩) :=
    .call <| .call <| .call <| .call <| .call <| .call <| .call <| .call <| .call <| .call <|
      .call <| .call <| .call <| .call <| .call <| .call <| .call <| .call <| .call <| .call <|
        .call <| .ret _
  have hsplit : storedLog = storedLog.take 18 ++ ⟨.setJson "k" "你好", .ok true⟩ ::
      storedLog.drop 19 := rfl
  exact statements_due _ hexits hsplit

end ResponseLocks

end Chat

end HyChat
