import HyChat.Tool.Sessions

/-!
# A tool is executed at most once

What every run of any number of sessions gives for one scope: at most one claim is told to
execute, the attempts are counted as the row says, and committed rows move along the edges of the
state machine only. That a row with an attempt has been seen `RUNNING` is a fact about the run,
not about its last configuration, so it is proved along the run (`run_good`).

The theorem takes the counting from the invariant, where the log of returns and the ghost together
are at most one, and the shape of the histories from the way rows evolve. Nothing here is a new
argument: it is the place where the pieces are put side by side, for every session, every list of
calls and every interleaving that the database allows.
-/

set_option autoImplicit false

namespace HyChat

open Lib Relation

/-- The call is a claim of the scope, and it returned `should_execute=True`. -/
def Return.executes (userId : String) (threadId : Option String) (toolCallId : String)
    (e : Return) : Bool :=
  match e.call, e.outcome with
  | .claimToolInvocation u t _ c _ _, .ok (some claim) =>
      u = userId && t = threadId && c = toolCallId && claim.shouldExecute
  | _, _ => false

section

variable {sha256 : Sha256} {issued : Call → Prop}

theorem Return.executes_iff {userId : String} {threadId : Option String} {toolCallId : String}
    {e : Return} : e.executes userId threadId toolCallId = true ↔
      ∃ rid name args claim, e.call = .claimToolInvocation userId threadId rid toolCallId name args ∧
        e.outcome = .ok (some claim) ∧ claim.shouldExecute = true := by
  obtain ⟨call, outcome⟩ := e
  unfold Return.executes
  constructor
  · intro h
    cases call <;> simp only [Bool.false_eq_true] at h
    rename_i u t rid c name args
    rcases outcome with e | _ | claim <;> simp only [Bool.false_eq_true] at h
    simp only [Bool.and_eq_true, decide_eq_true_eq] at h
    obtain ⟨⟨⟨rfl, rfl⟩, rfl⟩, hx⟩ := h
    exact ⟨rid, name, args, claim, rfl, rfl, hx⟩
  · rintro ⟨rid, name, args, claim, rfl, rfl, hx⟩
    simp [hx]

/-- Whoever is told to execute a scope is told so about the scope's one row. -/
theorem Inv.executes_grants {t : Tracked} (hi : Inv sha256 issued t) {userId : String}
    {threadId : Option String} {toolCallId : String} {e : Return} (he : e ∈ t.store.returns)
    (hx : e.executes userId threadId toolCallId = true) :
    ∃ n, e.grants n = true ∧ ∃ r, (t.store.slot n).invocation.committed = some r ∧
      r.userId = userId ∧
      r.idempotencyKey = invocationIdempotencyKey sha256 userId threadId toolCallId := by
  obtain ⟨rid, name, args, claim, hcall, hout, hs⟩ := Return.executes_iff.mp hx
  obtain ⟨r, hr, -, hp⟩ := hi.log.payload e he claim hout hs
  rw [hcall] at hp
  obtain ⟨hu, ht, hc, -, -⟩ := hp
  refine ⟨claim.invocationId, by simp [Return.grants, hout, hs], r, hr, hu, ?_⟩
  rw [((hi.slots _).committed_wf r hr).key, hu, ht, hc]

theorem Inv.executes_le_one {t : Tracked} (hi : Inv sha256 issued t) (userId : String)
    (threadId : Option String) (toolCallId : String) :
    t.store.returns.countP (Return.executes userId threadId toolCallId) ≤ 1 := by
  by_cases hnone : ∀ e ∈ t.store.returns, e.executes userId threadId toolCallId = false
  · have h0 : t.store.returns.countP (Return.executes userId threadId toolCallId) = 0 :=
      List.countP_eq_zero.mpr fun e he => by simp [hnone e he]
    rw [h0]
    exact Nat.zero_le 1
  · simp only [not_forall, Bool.not_eq_false] at hnone
    obtain ⟨e, he, hx⟩ := hnone
    obtain ⟨n, -, r, hr, hu, hk⟩ := hi.executes_grants he hx
    -- the scope has one row, so all of them are grants of it
    have hall : ∀ e' ∈ t.store.returns, e'.executes userId threadId toolCallId = true →
        e'.grants n = true := by
      intro e' he' hx'
      obtain ⟨m, hg, r', hr', hu', hk'⟩ := hi.executes_grants he' hx'
      have hmn : m = n := hi.unique m n r' r (.inl hr') (.inl hr) (by rw [hu', hu])
        (by rw [hk', hk])
      subst hmn
      exact hg
    exact Nat.le_trans (List.countP_mono_left hall) (hi.log.once n)

/-! ## Along a run -/

/-- A row that is started by a statement is `RUNNING` then. -/
theorem Guar.running {i : Nat} {t t' : Tracked} (hg : Guar i t t') (hi : Inv sha256 issued t)
    {n : Nat} (hns : ¬ t.store.started n) (hs : t'.store.started n) :
    ∃ r, (t'.store.slot n).invocation.committed = some r ∧ r.status = .running := by
  obtain ⟨r, hr, hx⟩ := hs
  rcases (hg.invocation n).committed_eq with he | ho
  · exact absurd ⟨r, by rw [← he, hr], hx⟩ hns
  · rw [hr] at ho
    obtain ⟨r', hr', -, -, hrun⟩ := (hi.slots n).own_wf i _ ho
    rw [Option.some.injEq] at hr'
    subst hr'
    exact ⟨r, hr, (hrun hx).resolve_right hns⟩

variable (issued) in
/-- Every configuration of a run is good, and what is started has been `RUNNING` on the way. -/
theorem run_good {conversation : String → Option Conversation} {calls : Nat → List Call}
    (h : ∀ i, ∀ call ∈ calls i, issued call) {past : List (Config toolSig Store Nat)}
    {c : Config toolSig Store Nat}
    (hrun : toolDb.Run (start sha256 conversation calls) past c) :
    ∃ t, (toolFamily sha256 issued).Good c t ∧ ∀ n, t.store.started n → ∃ c' ∈ c :: past,
      ∃ r, (c'.store.slot n).invocation.committed = some r ∧ r.status = .running := by
  induction hrun with
  | start =>
    refine ⟨_, start_good h, fun n hn => ?_⟩
    obtain ⟨r, hr, -⟩ := hn
    exact absurd hr (by simp [Store.initial, Slot.empty])
  | @step past c c' _ hst ih =>
    obtain ⟨t, hgood, hall⟩ := ih
    obtain ⟨i, hi⟩ := hst
    obtain ⟨t', hgood', hg⟩ := hgood.step id hi
    refine ⟨t', hgood', fun n hn => ?_⟩
    by_cases hns : t.store.started n
    · obtain ⟨c'', hm, r, hr, hs⟩ := hall n hns
      exact ⟨c'', List.mem_cons_of_mem _ hm, r, hr, hs⟩
    · obtain ⟨r, hr, hs⟩ := Guar.running hg hgood.inv hns hn
      have hreal : t'.store = c'.store := hgood'.real
      exact ⟨c', List.mem_cons_self, r, by rw [← hreal, hr], hs⟩

/-- **At-most-once execution**, over every run of any number of sessions: a scope is told to
    execute at most once; a committed row counts one attempt exactly when it has been `RUNNING`,
    and never more; from one committed version to a later one the status follows the edges, and a
    finished row keeps its status, output, error and completion time. -/
theorem executed_at_most_once {conversation : String → Option Conversation}
    {calls : Nat → List Call} {past : List (Config toolSig Store Nat)}
    {c : Config toolSig Store Nat}
    (hrun : toolDb.Run (start sha256 conversation calls) past c) :
    (∀ userId threadId toolCallId,
      c.store.returns.countP (Return.executes userId threadId toolCallId) ≤ 1) ∧
    (∀ n r, (c.store.slot n).invocation.committed = some r →
      r.attemptCount ≤ 1 ∧ (r.attemptCount = 1 ↔ ∃ c' ∈ c :: past, ∃ r',
        (c'.store.slot n).invocation.committed = some r' ∧ r'.status = .running)) ∧
    (∀ c' ∈ past, ∀ n r', (c'.store.slot n).invocation.committed = some r' →
      ∃ r, (c.store.slot n).invocation.committed = some r ∧
        r.userId = r'.userId ∧ r.threadId = r'.threadId ∧ r.toolCallId = r'.toolCallId ∧
        r'.status.Reaches r.status ∧
        (r'.status.terminal = true → r.status = r'.status ∧ r.output = r'.output ∧
          r.errorMessage = r'.errorMessage ∧ r.completedAt = r'.completedAt)) := by
  -- what one configuration of the run says of a later one
  have hlater : ∀ c' ∈ past, ∀ n r', (c'.store.slot n).invocation.committed = some r' →
      ∃ r, (c.store.slot n).invocation.committed = some r ∧ r'.Evolves r := by
    intro c' hc' n r' hr'
    obtain ⟨hs, hs'⟩ := hrun.steps_of_mem hc'
    obtain ⟨t', hgood'⟩ := reachable_good (fun _ => True) (fun _ _ _ => trivial) hs
    exact (steps_later hgood' hs' n).1 r' hr'
  obtain ⟨t, hgood, hstarted⟩ := run_good (fun _ => True) (fun _ _ _ => trivial) hrun
  have hreal : t.store = c.store := hgood.real
  refine ⟨fun userId threadId toolCallId => ?_, fun n r hr => ?_, fun c' hc' n r' hr' => ?_⟩
  · rw [← hreal]
    exact hgood.inv.executes_le_one userId threadId toolCallId
  · have hr₀ : (t.store.slot n).invocation.committed = some r := by rw [hreal, hr]
    have hat := ((hgood.inv.slots n).committed_wf r hr₀).attempts
    refine ⟨?_, fun h1 => ?_, ?_⟩
    · cases hx : r.status.executed <;> rw [hx] at hat <;> simp [hat]
    · refine hstarted n ⟨r, hr₀, ?_⟩
      by_contra hx
      rw [hat, if_neg hx] at h1
      exact absurd h1 (by decide)
    · rintro ⟨c', hc', r', hr', hs'⟩
      have he : r'.status.Reaches r.status := by
        rcases List.mem_cons.mp hc' with rfl | hc'
        · rw [hr, Option.some.injEq] at hr'
          rw [hr']
        · obtain ⟨r₁, hr₁, he⟩ := hlater c' hc' n r' hr'
          rw [hr, Option.some.injEq] at hr₁
          rw [hr₁]
          exact he.status
      rw [hat, he.executed (by rw [hs']; rfl)]
      rfl
  · obtain ⟨r, hr, he⟩ := hlater c' hc' n r' hr'
    exact ⟨r, hr, he.userId, he.threadId, he.toolCallId, he.status,
      fun ht => ⟨he.status.eq_of_terminal ht, he.finished ht⟩⟩

end

/-! ## Two claims of one call -/

/-- Sessions 0 and 1 claim the same call. -/
def twoClaims (i : Nat) : List Call :=
  if i < 2 then [.claimToolInvocation "user" (some "thread") none "call" "search" [("q", .str "x")]]
  else []

/-- The second claim begins before the first has committed and goes on after it. -/
def twoClaimsSchedule : List (Nat × Action Choice) :=
  [0, 0, 0, 0, 0, 0, 1, 1, 0, 1, 1, 1, 1, 1, 0, 0].map fun i => (i, .stmt ⟨false, 0⟩)

theorem executed_at_most_once_twoClaims : ∃ past c,
    toolDb.Run (start .standard (fun _ => none) twoClaims) past c ∧
      c.store.returns.map (Return.executes "user" (some "thread") "call") = [true, false] ∧
      ∀ userId threadId toolCallId,
        c.store.returns.countP (Return.executes userId threadId toolCallId) ≤ 1 := by
  have hsched : (toolDb.runSched twoClaimsSchedule
      (start .standard (fun _ => none) twoClaims)).any (fun c =>
        c.store.returns.map (Return.executes "user" (some "thread") "call") = [true, false]) =
        true := by decide +kernel
  obtain ⟨c, hc, hret⟩ := (Option.any_eq_true ..).mp hsched
  obtain ⟨past, hrun⟩ := Machine.Run.of_runSched .start hc
  exact ⟨past, c, hrun, of_decide_eq_true hret, (executed_at_most_once hrun).1⟩

end HyChat
