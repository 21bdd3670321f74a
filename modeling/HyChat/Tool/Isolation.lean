import HyChat.Tool.Batch
import HyChat.Tool.Payload

/-!
# Scopes do not see each other

Three statements about a call of the service and a scope `t` it is not made for.

* Where the keys differ, the call neither changes a row of `t` nor depends on one. The second half
  is about two runs: a program learns of the store only through the answers to its statements, and
  on stores that differ in rows of `t` the statements of the call are answered alike
  (`exec_apart`).
* Where the keys coincide and the scopes do not (no thread, an empty one, one called `<direct>`),
  a row of `t` stops the call. A call for this scope alone has written nothing by then; in a batch
  the elements before it have, and the batch is compared with the batch of those elements alone
  (`shares_runCall`): up to the bad element the two go on alike.
* A thread whose conversation is somebody else's stops it before it looks at the rows.

The key is a digest, so that keys differ is what injectivity of the digest on the texts of the
scopes gives (`Scope.key_ne`).

How the second half of the first point is proved. Two stores are `Apart` if they differ only in a
set of slots which in both hold nothing but rows of `t`. A statement that asks under other keys and
other ids is answered alike on both and leaves them apart (`exec_apart`), and by `Tool/Footprint` a
call for another scope issues no other statements. The statement about runs takes the stores that
the call's statements met, whatever the others did in between, and puts any stores in their place
that are apart from them: the call ends the same way. What the others do with rows of `t`, and may
tell, is not the call's doing and is left out in this way.

What is claimed where the keys coincide. The first element of a batch whose key is taken stops the
call. If it is the head, nothing has been written, and the store is `Untouched`. If it is not, the
elements before it have been worked on, and may have raised an exception of their own first; the
comparison with the shorter batch says precisely that: either the call ends as the shorter one does
while still at work, or it gets as far and is then refused. In every case nothing is committed.

What is not claimed: that the refusal has a particular message, and anything about two scopes whose
texts have the same digest, which is excluded by the hypothesis on the digest.
-/

set_option autoImplicit false

namespace HyChat

open Lib Relation

/-! ## Keys -/

/-- The text a scope's key is the digest of. -/
def Scope.text (s : Scope) : String := scopeText s.userId s.threadId s.toolCallId

/-- The scopes are the same but for how they name a thread that is not there. -/
def Scope.Coincides (s t : Scope) : Prop :=
  s.userId = t.userId ∧ orDefault s.threadId "<direct>" = orDefault t.threadId "<direct>" ∧
    s.toolCallId = t.toolCallId

/-- Texts of scopes are equal only if the scopes coincide: the three parts can be read off the
text. -/
theorem Scope.text_eq_iff {s t : Scope} : s.text = t.text ↔ s.Coincides t := by
  constructor
  · intro h
    have hj := Json.dumps_injective h
    simpa [Scope.Coincides] using hj
  · intro h
    obtain ⟨h1, h2, h3⟩ := h
    simp only [Scope.text, scopeText, h1, h2, h3]

/-- The scope a row stands for. -/
def ToolInvocation.scope (r : ToolInvocation) : Scope := ⟨r.userId, r.threadId, r.toolCallId⟩

section

variable {sha256 : Sha256} {issued : Call → Prop} {i : Nat} {t : Tracked}

theorem Scope.key_ne {s u : Scope}
    (hinj : sha256.hexdigest s.text = sha256.hexdigest u.text → s.text = u.text)
    (h : ¬ s.Coincides u) : s.key sha256 ≠ u.key sha256 :=
  fun hk => h (Scope.text_eq_iff.mp (hinj hk))

/-- The row stands under the scope's key. -/
def Scope.Owns (sha256 : Sha256) (u : Scope) (userId idempotencyKey : String) : Prop :=
  userId = u.userId ∧ idempotencyKey = u.key sha256

/-! ## Stores that differ in the rows of one scope -/

/-- Whatever the slot holds stands under the key of `u`. -/
structure Slot.Only (sha256 : Sha256) (u : Scope) (sl : Slot) : Prop where
  invocation : ∀ r, sl.invocation.Holds (some r) → u.Owns sha256 r.userId r.idempotencyKey
  approval : ∀ a, sl.approval.Holds (some a) → u.Owns sha256 a.userId a.idempotencyKey

/-- The two stores differ at most in the slots `N`, and there both hold only rows of `u`. -/
structure Apart (sha256 : Sha256) (u : Scope) (N : Nat → Prop) (s s' : Store) : Prop where
  next : s'.next = s.next
  conversation : s'.conversation = s.conversation
  same : ∀ n, ¬ N n → s'.slot n = s.slot n
  left : ∀ n, N n → (s.slot n).Only sha256 u
  right : ∀ n, N n → (s'.slot n).Only sha256 u

/-- Rows stand where their ids say. -/
def Store.Placed (s : Store) : Prop :=
  (∀ i n r, (s.slot n).invocation.view i = some r → r.id = n) ∧
    ∀ i n a, (s.slot n).approval.view i = some a → a.invocationId = n

/-- The invariant says where rows stand. -/
theorem Inv.placed (h : Inv sha256 issued t) : t.store.Placed := by
  refine ⟨fun i n r hr => h.view_at hr, fun i n a ha => ?_⟩
  exact ((h.slots n).approval_view_at ha).1

theorem Slot.Only.not_sees {u : Scope} {sl : Slot} (h : sl.Only sha256 u)
    {userId idempotencyKey : String} (hk : ¬ u.Owns sha256 userId idempotencyKey) (i : Nat) :
    sl.seesInvocation i userId idempotencyKey = false ∧
      sl.awaitsInvocation i userId idempotencyKey = false ∧
      sl.seesApproval i userId idempotencyKey = false ∧
      sl.awaitsApproval i userId idempotencyKey = false := by
  have hpending : ∀ {α : Type} {c : Cell Nat (Option α)} {v : α},
      c.pending.bind Prod.snd = some v → c.Holds (some v) := by
    intro α c v hv
    obtain ⟨⟨j, w⟩, hp, rfl⟩ := Option.bind_eq_some_iff.mp hv
    exact .inr ⟨j, Cell.own_eq_some.mpr hp⟩
  refine ⟨?_, ?_, ?_, ?_⟩
  · rw [← Bool.not_eq_true, Slot.seesInvocation_iff]
    rintro ⟨r, hr, rfl, rfl⟩
    exact hk (h.invocation r (hr ▸ Cell.view_holds i _))
  · rw [← Bool.not_eq_true]
    intro ha
    obtain ⟨r, hr, hrk⟩ := (Option.any_eq_true _ _).mp (Bool.and_eq_true_iff.mp ha).2
    simp only [ToolInvocation.hasKey, Bool.and_eq_true, decide_eq_true_eq] at hrk
    obtain ⟨rfl, rfl⟩ := hrk
    exact hk (h.invocation r (hpending hr))
  · rw [← Bool.not_eq_true, Slot.seesApproval_iff]
    rintro ⟨a, ha, rfl, rfl⟩
    exact hk (h.approval a (ha ▸ Cell.view_holds i _))
  · rw [← Bool.not_eq_true]
    intro ha
    obtain ⟨r, hr, hrk⟩ := (Option.any_eq_true _ _).mp (Bool.and_eq_true_iff.mp ha).2
    simp only [Approval.hasKey, Bool.and_eq_true, decide_eq_true_eq] at hrk
    obtain ⟨rfl, rfl⟩ := hrk
    exact hk (h.approval r (hpending hr))

/-- A lookup that no slot of `N` can satisfy finds the same slot in both stores. -/
theorem Apart.findSlot_eq {u : Scope} {N : Nat → Prop} {s s' : Store}
    (h : Apart sha256 u N s s') {p : Slot → Bool}
    (hp : ∀ sl : Slot, sl.Only sha256 u → p sl = false) : s'.findSlot p = s.findSlot p := by
  unfold Store.findSlot
  rw [h.next]
  congr 1
  funext n
  by_cases hn : N n
  · rw [hp _ (h.left n hn), hp _ (h.right n hn)]
  · rw [h.same n hn]

/-- Such a slot is not in `N`. -/
theorem Apart.not_mem_of_findSlot {u : Scope} {N : Nat → Prop} {s s' : Store}
    (h : Apart sha256 u N s s') {p : Slot → Bool}
    (hp : ∀ sl : Slot, sl.Only sha256 u → p sl = false) {n : Nat}
    (hn : s.findSlot p = some n) : ¬ N n := by
  intro hN
  have := (Store.findSlot_eq_some hn).2
  rw [hp _ (h.left n hN)] at this
  exact absurd this (by decide)

/-- The statements a call for another scope issues: they ask under other keys and other ids. -/
def Issues (sha256 : Sha256) (u : Scope) (N : Nat → Prop) : Stmt → Prop
  | .commit => True
  | .setConversation _ _ => True
  | o => o.Speaks (fun n => ¬ N n) fun userId key => ¬ u.Owns sha256 userId key

/-- The answers do not depend on the slots in `N`. -/
theorem run_apart {u : Scope} {N : Nat → Prop} {s s' : Store} {o : Stmt} {now : Nat}
    (h : Apart sha256 u N s s') (ho : Issues sha256 u N o) :
    (o.run i now s').map Prod.fst = (o.run i now s).map Prod.fst := by
  cases o with
  | selectConversation threadId => simp only [Stmt.run, h.conversation, Option.map_some]
  | insertInvocation row =>
    have hk : ¬ u.Owns sha256 row.userId row.idempotencyKey := ho
    simp only [Stmt.run, h.findSlot_eq fun sl hsl => (hsl.not_sees hk i).1,
      h.findSlot_eq fun sl hsl => (hsl.not_sees hk i).2.1]
    split
    · rfl
    · split <;> rfl
  | selectInvocation userId key =>
    have hk : ¬ u.Owns sha256 userId key := ho
    have hp := fun sl (hsl : Slot.Only sha256 u sl) => (hsl.not_sees hk i).1
    simp only [Stmt.run, h.findSlot_eq hp, Option.map_some]
    cases hfind : s.findSlot (Slot.seesInvocation i userId key) with
    | none => rfl
    | some n => rw [Option.bind_some, Option.bind_some, h.same n (h.not_mem_of_findSlot hp hfind)]
  | getInvocation id =>
    have hid : ¬ N id := ho
    simp only [Stmt.run, h.same id hid, Option.map_some]
  | updateInvocation id condition values =>
    have hid : ¬ N id := ho
    simp only [Stmt.run, h.same id hid]
    split
    · rfl
    · split
      · split <;> rfl
      · rfl
  | insertApproval row =>
    have hk : ¬ N row.invocationId ∧ ¬ u.Owns sha256 row.userId row.idempotencyKey := ho
    simp only [Stmt.run, h.same _ hk.1, h.findSlot_eq fun sl hsl => (hsl.not_sees hk.2 i).2.2.1,
      h.findSlot_eq fun sl hsl => (hsl.not_sees hk.2 i).2.2.2]
    split
    · rfl
    · split
      · rfl
      · split
        · rfl
        · split <;> rfl
  | selectApproval userId key =>
    have hk : ¬ u.Owns sha256 userId key := ho
    have hp := fun sl (hsl : Slot.Only sha256 u sl) => (hsl.not_sees hk i).2.2.1
    simp only [Stmt.run, h.findSlot_eq hp, Option.map_some]
    cases hfind : s.findSlot (Slot.seesApproval i userId key) with
    | none => rfl
    | some n => rw [Option.bind_some, Option.bind_some, h.same n (h.not_mem_of_findSlot hp hfind)]
  | selectApprovalOf id userId =>
    have hid : ¬ N id := ho
    simp only [Stmt.run, h.same id hid, Option.map_some]
  | updateApproval id condition values =>
    have hid : ¬ N id := ho
    simp only [Stmt.run, h.same id hid]
    split
    · rfl
    · split
      · split <;> rfl
      · rfl
  | _ => rfl

/-- **One statement on two stores.** It is answered alike, and the answer tells of no id in
    `N`. -/
theorem exec_apart {u : Scope} {N : Nat → Prop} {s s' s₁ : Store} {o : Stmt} {choice : Choice}
    {r : toolSig.Res o} (h : Apart sha256 u N s s') (hs : s.Placed) (ho : Issues sha256 u N o)
    (he : toolDb.exec i o choice s = some (r, s₁)) :
    Stmt.Tells (fun n => ¬ N n) (fun userId key => ¬ u.Owns sha256 userId key) o r ∧
      ∃ s₁', toolDb.exec i o choice s' = some (r, s₁') := by
  by_cases hf : choice.fault && o.fallible
  · simp only [toolDb, hf, if_true, Option.some.injEq, Prod.mk.injEq] at he ⊢
    obtain ⟨rfl, rfl⟩ := he
    refine ⟨?_, s', rfl, rfl⟩
    unfold Stmt.Tells
    cases o <;> trivial
  simp only [toolDb, hf, Bool.false_eq_true, if_false] at he ⊢
  refine ⟨?_, ?_⟩
  · unfold Stmt.Tells
    split
    · rename_i userId key row
      have hk : ¬ u.Owns sha256 userId key := ho
      have hp := fun sl (hsl : Slot.Only sha256 u sl) => (hsl.not_sees hk i).1
      simp only [Stmt.run, Option.some.injEq, Prod.mk.injEq, Except.ok.injEq] at he
      obtain ⟨n, hn, hrow⟩ := Option.bind_eq_some_iff.mp he.1
      obtain ⟨r', hr', hu', hk'⟩ := Slot.seesInvocation_iff.mp (Store.findSlot_eq_some hn).2
      rw [hrow, Option.some.injEq] at hr'
      subst hr'
      rw [hs.1 i n row hrow, hk']
      exact ⟨h.not_mem_of_findSlot hp hn, hk⟩
    · rename_i id userId row
      have hid : ¬ N id := ho
      simp only [Stmt.run, Option.some.injEq, Prod.mk.injEq, Except.ok.injEq] at he
      rw [hs.2 i id row (Option.filter_eq_some_iff.mp he.1).1]
      exact hid
    · trivial
  · have hrun : (o.run i choice.now s').map Prod.fst = (o.run i choice.now s).map Prod.fst :=
      run_apart h ho
    rw [he, Option.map_some] at hrun
    obtain ⟨⟨r', s₁'⟩, he', hr'⟩ := Option.map_eq_some_iff.mp hrun
    simp only at hr'
    subst hr'
    exact ⟨s₁', he'⟩

/-- Every call issues such statements, unless it is made for the scope. -/
theorem within_runCall {u : Scope} {N : Nat → Prop} {call : Call}
    (hkey : ∀ s ∈ call.scopes, ¬ u.Owns sha256 s.userId (s.key sha256))
    (hid : ∀ n, call.finishes = some n → ¬ N n) :
    (runCall sha256 call).Within (Issues sha256 u N)
      (Stmt.Tells (fun n => ¬ N n) fun userId key => ¬ u.Owns sha256 userId key)
      (fun _ => True) fun _ => True := by
  have hF : Footprint (fun n => ¬ N n) (fun userId key => ¬ u.Owns sha256 userId key)
      (Issues sha256 u N)
      (Stmt.Tells (fun n => ¬ N n) fun userId key => ¬ u.Owns sha256 userId key) := by
    refine ⟨fun o ho => ?_, fun _ _ h => h⟩
    cases o with
    | commit => trivial
    | setConversation threadId conversation => trivial
    | _ => exact ho
  have hc : Issues sha256 u N .commit := trivial
  have hnone : ∀ {body : Db Unit}, body.Within (Issues sha256 u N)
      (Stmt.Tells (fun n => ¬ N n) fun userId key => ¬ u.Owns sha256 userId key)
      (fun _ => True) (fun _ => True) →
      (do body; pure none : Db (Option ToolInvocationClaim)).Within (Issues sha256 u N)
        (Stmt.Tells (fun n => ¬ N n) fun userId key => ¬ u.Owns sha256 userId key)
        (fun _ => True) fun _ => True := fun h => .bind h fun _ _ => .pure trivial
  cases call with
  | ensurePendingApprovals userId threadId runtimeRunId toolCalls =>
    exact hnone (within_ensurePendingApprovals hF hc _ fun tc htc =>
      hkey _ (List.mem_map_of_mem htc))
  | recordApprovalDecisions userId threadId runtimeRunId decisions =>
    exact hnone (within_recordApprovalDecisions hF hc _ fun d hd =>
      hkey _ (List.mem_map_of_mem hd))
  | claimToolInvocation userId threadId runtimeRunId toolCallId toolName requestedInput =>
    exact .bind (within_claimToolInvocation hF hc _ _ _ (hkey _ List.mem_cons_self)) fun _ _ =>
      .pure trivial
  | completeToolInvocation claim result errorMessage =>
    exact hnone (.bind (within_any hF (o := .utcnow) trivial) fun _ _ =>
      within_finishInvocation hF (hid _ rfl) _)
  | failToolInvocation claim errorMessage =>
    exact hnone (.bind (within_any hF (o := .utcnow) trivial) fun _ _ =>
      within_finishInvocation hF (hid _ rfl) _)
  | commit => exact hnone (within_commit hc)
  | rollback => exact hnone (within_any hF (o := .rollback) trivial)
  | setConversation threadId conversation =>
    exact hnone (within_perform (o := .setConversation threadId conversation) trivial
      fun r _ => by cases r <;> trivial)

/-! ## Nothing is changed where the keys differ -/

variable (sha256) in
/-- The committed rows under the scope's key stay as they are. -/
def KeepsRows (u : Scope) (s s' : Store) : Prop :=
  ∀ n r, ((s.slot n).invocation.committed = some r ∨ (s'.slot n).invocation.committed = some r) →
    u.Owns sha256 r.userId r.idempotencyKey →
      (s'.slot n).invocation.committed = (s.slot n).invocation.committed ∧
      (s'.slot n).approval.committed = (s.slot n).approval.committed

/-- A guarantee that is about committed rows under the scope's key only. -/
def KeepsRowsGuar (sha256 : Sha256) (u : Scope) (i : Nat) (t t' : Tracked) : Prop :=
  Guar i t t' ∧ KeepsRows sha256 u t.store t'.store

/-- A statement that commits nothing changes no committed row. -/
theorem quiet_keepsRows {u : Scope} (t t' : Tracked) (h : Quiet i t t') :
    KeepsRowsGuar sha256 u i t t' :=
  ⟨h.toGuar, fun n _ _ _ => ⟨h.committed n, h.approval_committed n⟩⟩

variable (sha256) in
/-- What the session has written stands under other keys, and so does what the call finishes. -/
structure KeepsOff (u : Scope) (i : Nat) (call : Call) (t : Tracked) : Prop where
  own : ∀ n, ((t.store.slot n).invocation.own i ≠ none ∨ (t.store.slot n).approval.own i ≠ none) →
    ∃ r, (t.store.slot n).invocation.view i = some r ∧
      ¬ u.Owns sha256 r.userId r.idempotencyKey
  finishes : ∀ n, call.finishes = some n → ∃ r, (t.store.slot n).invocation.committed = some r ∧
    ¬ u.Owns sha256 r.userId r.idempotencyKey

/-- A row keeps its key. -/
theorem ToolInvocation.Evolves.owns_iff {u : Scope} {r r' : ToolInvocation} (he : r.Evolves r') :
    u.Owns sha256 r'.userId r'.idempotencyKey ↔ u.Owns sha256 r.userId r.idempotencyKey := by
  rw [he.userId, he.idempotencyKey]

section

variable {u : Scope} {call : Call}

/-- What the call is made for stands under other keys. -/
theorem KeepsOff.concerns (h : KeepsOff sha256 u i call t) (hi : Inv sha256 issued t)
    (hkey : ∀ s ∈ call.scopes, ¬ u.Owns sha256 s.userId (s.key sha256)) {n : Nat}
    {r : ToolInvocation} (hr : (t.store.slot n).invocation.view i = some r)
    (hc : call.Concerns sha256 n r) : ¬ u.Owns sha256 r.userId r.idempotencyKey := by
  rcases hc with ⟨s, hs, hu, hk⟩ | hf
  · rw [hu, hk]
    exact hkey s hs
  · obtain ⟨r₀, hr₀, hno⟩ := h.finishes n hf
    rw [((hi.slots n).view_evolves hr₀ hr).owns_iff]
    exact hno

theorem KeepsOff.putInvocation (h : KeepsOff sha256 u i call t) {n : Nat} {r : ToolInvocation}
    (hr : ¬ u.Owns sha256 r.userId r.idempotencyKey) :
    KeepsOff sha256 u i call ⟨t.store.putInvocation i n r, t.granted⟩ where
  own := by
    intro m ho
    by_cases hm : m = n
    · subst hm
      exact ⟨r, by simp only [Store.putInvocation_slot_self, Cell.view_write_self], hr⟩
    · simp only [Store.putInvocation_slot_of_ne hm] at ho ⊢
      exact h.own m ho
  finishes := by
    intro m hm
    obtain ⟨r₀, hr₀, hno⟩ := h.finishes m hm
    refine ⟨r₀, ?_, hno⟩
    by_cases hmn : m = n
    · subst hmn
      simpa only [Store.putInvocation_slot_self, Cell.committed_write] using hr₀
    · simpa only [Store.putInvocation_slot_of_ne hmn] using hr₀

theorem KeepsOff.putApproval (h : KeepsOff sha256 u i call t) {n : Nat} {r : ToolInvocation}
    {a : Approval} (hr : (t.store.slot n).invocation.view i = some r)
    (hno : ¬ u.Owns sha256 r.userId r.idempotencyKey) :
    KeepsOff sha256 u i call ⟨t.store.putApproval i n a, t.granted⟩ where
  own := by
    intro m ho
    by_cases hm : m = n
    · subst hm
      exact ⟨r, by simpa only [Store.putApproval_slot_self] using hr, hno⟩
    · simp only [Store.putApproval_slot_of_ne hm] at ho ⊢
      exact h.own m ho
  finishes := by
    intro m hm
    obtain ⟨r₀, hr₀, hno₀⟩ := h.finishes m hm
    refine ⟨r₀, ?_, hno₀⟩
    by_cases hmn : m = n
    · subst hmn
      simpa only [Store.putApproval_slot_self] using hr₀
    · simpa only [Store.putApproval_slot_of_ne hmn] using hr₀

theorem stable_keepsOff {R G : Tracked → Tracked → Prop}
    (hR : ∀ t t', R t t' → ∃ j, j ≠ i ∧ Guar j t t') :
    (toolParty sha256 issued i R G).Stable (KeepsOff sha256 u i call) := by
  intro t t' hi _ hr h
  obtain ⟨j, hij, hg⟩ := hR t t' hr
  refine ⟨fun n ho => ?_, fun n hn => ?_⟩
  · rw [hg.own_invocation hij, hg.own_approval hij] at ho
    obtain ⟨r, hr, hno⟩ := h.own n ho
    obtain ⟨r', hr', he⟩ := hg.view_later hi hij n r hr
    exact ⟨r', hr', fun hu => hno (he.owns_iff.mp hu)⟩
  · obtain ⟨r, hr, hno⟩ := h.finishes n hn
    obtain ⟨r', hr', he⟩ := hg.later hi n r hr
    exact ⟨r', hr', fun hu => hno (he.owns_iff.mp hu)⟩

/-- A commit shows only what stands under other keys. -/
theorem KeepsOff.commit (h : KeepsOff sha256 u i call t) (hi : Inv sha256 issued t) :
    KeepsRows sha256 u t.store (t.store.commit i) := by
  intro n r hr hu
  by_cases ho : (t.store.slot n).invocation.own i ≠ none ∨ (t.store.slot n).approval.own i ≠ none
  · obtain ⟨r', hr', hno⟩ := h.own n ho
    rcases hr with hr | hr
    · exact absurd (((hi.slots n).view_evolves hr hr').owns_iff.mpr hu) hno
    · simp only [Store.commit, Cell.committed_commit, hr', Option.some.injEq] at hr
      subst hr
      exact absurd hu hno
  · rw [not_or, not_not, not_not] at ho
    simp only [Store.commit, Cell.commit_of_not_own ho.1, Cell.commit_of_not_own ho.2, and_self]

theorem CallFrame.keepsOff {R : Tracked → Tracked → Prop}
    (hR : ∀ t t', R t t' → ∃ j, j ≠ i ∧ Guar j t t')
    (hkey : ∀ s ∈ call.scopes, ¬ u.Owns sha256 s.userId (s.key sha256)) :
    CallFrame sha256 issued i R (KeepsRowsGuar sha256 u i) call (KeepsOff sha256 u i call) where
  stable := stable_keepsOff hR
  idle := by
    intro hfin t hidle
    refine ⟨fun n ho => ?_, fun n hn => absurd (hfin.symm.trans hn) (by simp)⟩
    rw [(hidle n).1, (hidle n).2] at ho
    exact absurd ho (by simp)
  putInvocation := by
    intro t n r r' hi h hr hc he
    refine h.putInvocation fun hu => ?_
    exact h.concerns hi hkey hr hc (he.owns_iff.mp hu)
  insertInvocation := by
    rintro t row hi h ⟨s, hs, hu, hk⟩
    have hno : ¬ u.Owns sha256 row.userId row.idempotencyKey := by
      rw [hu, hk]
      exact hkey s hs
    have hput := h.putInvocation (n := t.store.next) (r := { row with id := t.store.next }) hno
    exact ⟨hput.own, hput.finishes⟩
  putApproval := fun t n r a hi h hr hc => h.putApproval hr (h.concerns hi hkey hr hc)
  setConversation := fun t _ _ h hg => ⟨⟨hg, fun _ _ _ _ => ⟨rfl, rfl⟩⟩, h.own, h.finishes⟩
  commit := fun t g hi h hg => ⟨hg, h.commit hi⟩

end

/-! ## Calls that are stopped -/

theorem validateIdentity_of_valid {threadId runtimeRunId : Option String} {toolCallId : String}
    (h : ValidIdentity threadId runtimeRunId toolCallId) :
    validateIdentity threadId runtimeRunId toolCallId = pure () := by
  obtain ⟨h1, h2, h3, h4⟩ := h
  have hany : ∀ (o : Option String) (k : Nat), (∀ s, o = some s → s.length ≤ k) →
      o.any (k < ·.length) = false := by
    intro o k ho
    cases o with
    | none => rfl
    | some s => simpa using ho s rfl
  simp only [validateIdentity, hany threadId 64 h1, hany runtimeRunId 128 h2, h3, raiseIf,
    Nat.not_lt.mpr h4, decide_false, Bool.false_eq_true, if_false]
  rfl

/-- The run id a call is made under. -/
def Call.runtimeRunId : Call → Option String
  | .ensurePendingApprovals _ _ runtimeRunId _ => runtimeRunId
  | .recordApprovalDecisions _ _ runtimeRunId _ => runtimeRunId
  | .claimToolInvocation _ _ runtimeRunId _ _ _ => runtimeRunId
  | _ => none

/-- The call for the first elements of its batch. -/
def Call.upTo (n : Nat) : Call → Call
  | .ensurePendingApprovals userId threadId runtimeRunId toolCalls =>
      .ensurePendingApprovals userId threadId runtimeRunId (toolCalls.take n)
  | .recordApprovalDecisions userId threadId runtimeRunId decisions =>
      .recordApprovalDecisions userId threadId runtimeRunId (decisions.take n)
  | call => call

/-- The reasons to raise that come before the rows are looked at. -/
structure Excuses (A : (o : toolSig.Op) → toolSig.Res o → Prop) (s : Scope)
    (runtimeRunId : Option String) (E : PyError → Prop) : Prop where
  identity : ¬ ValidIdentity s.threadId runtimeRunId s.toolCallId → ∀ message,
    E (.toolInvocationConflict message)
  owner : ∀ thread c, s.threadId = some thread → thread ≠ "" →
    A (.selectConversation thread) (.ok (some c)) → c.userId ≠ s.userId → ∀ message,
      E (.toolInvocationOwnershipError message)
  database : ∀ o e, A o (.error e) → E e

/-- The statements before the rows are looked at, and those that look under the scope's key. -/
abbrev Stmt.Looks (key : String → String → Prop) (o : Stmt) : Prop := o.Speaks (fun _ => False) key

section

variable {I : toolSig.Op → Prop} {A : (o : toolSig.Op) → toolSig.Res o → Prop}
  {E : PyError → Prop} {s : Scope} {runtimeRunId : Option String} {key : String → String → Prop}
  (hE : Excuses A s runtimeRunId E) (hI : ∀ o, Stmt.Looks key o → I o)
include hE hI

/-- What comes first: the checks and the owner of the conversation. -/
theorem within_firstChecks {α : Type} {f : Nat → Option String → Db α}
    (hf : (∀ thread, s.threadId = some thread → thread ≠ "" →
        ∃ o, A (.selectConversation thread) (.ok o) ∧ ∀ c, o = some c → c.userId = s.userId) →
      ∀ now conversationId, (f now conversationId).Within I A (fun _ => False) E) :
    (do
      validateIdentity s.threadId runtimeRunId s.toolCallId
      let now ← perform .utcnow
      let conversationId ← conversationIdForUser s.userId s.threadId
      f now conversationId : Db α).Within I A (fun _ => False) E := by
  have hperform : ∀ {o : Stmt} {V : o.Val → Prop}, Stmt.Looks key o → (∀ v, A o (.ok v) → V v) →
      (perform o).Within I A V E := by
    intro o V ho hV
    refine within_perform (hI o ho) fun r hr => ?_
    cases r with
    | ok v => exact hV v hr
    | error e => exact hE.database o e hr
  refine .bind (V := fun _ => True) ?_ fun _ _ => ?_
  · by_cases hv : ValidIdentity s.threadId runtimeRunId s.toolCallId
    · rw [validateIdentity_of_valid hv]
      exact .pure trivial
    · exact within_validateIdentity _ _ _ (hE.identity hv)
  refine .bind (V := fun _ => True) (hperform (o := .utcnow) trivial fun _ _ => trivial)
    fun now _ => ?_
  refine .bind (V := fun _ => ∀ thread, s.threadId = some thread → thread ≠ "" →
      ∃ o, A (.selectConversation thread) (.ok o) ∧ ∀ c, o = some c → c.userId = s.userId) ?_
    fun conversationId h => hf h now conversationId
  unfold conversationIdForUser
  cases ht : s.threadId with
  | none => exact .pure fun thread h => absurd h (by simp)
  | some thread =>
    by_cases hth : thread = ""
    · simp only [hth, if_true]
      refine .pure fun thread' h hne => ?_
      simp only [Option.some.injEq] at h
      exact absurd h.symm hne
    simp only [hth, if_false]
    refine .bind (V := fun o => A (.selectConversation thread) (.ok o))
      (hperform (o := .selectConversation thread) trivial fun _ h => h) fun o ho => ?_
    cases o with
    | none =>
      refine .pure fun thread' h _ => ?_
      simp only [Option.some.injEq] at h
      subst h
      exact ⟨none, ho, fun c hc => absurd hc (by simp)⟩
    | some c =>
      refine .bind (within_raiseIf fun hc => ?_) fun _ hc => .pure fun thread' h _ => ?_
      · exact hE.owner thread c ht hth ho (by simpa using hc) _
      · simp only [Option.some.injEq] at h
        subst h
        refine ⟨some c, ho, fun c' hc' => ?_⟩
        simp only [Option.some.injEq] at hc'
        subst hc'
        simpa using hc

/-- A row under the key that is not the scope's stops the call. -/
theorem stops_ensureInvocation (toolName : String) (requestedInput : PyMapping)
    (approvalRequired allowEffectiveMatch : Bool) (hkey : key s.userId (s.key sha256))
    (hconflict : ∀ message, E (.toolInvocationConflict message))
    (hsel : ∀ o, A (.selectInvocation s.userId (s.key sha256)) (.ok o) →
      ∃ r, o = some r ∧ r.threadId ≠ s.threadId) :
    (ensureInvocation sha256 s.userId s.threadId runtimeRunId s.toolCallId toolName requestedInput
      approvalRequired allowEffectiveMatch).Within I A (fun _ => False) E := by
  unfold ensureInvocation
  refine within_firstChecks hE hI fun _ now conversationId => ?_
  refine .bind (V := fun _ => True) (within_perform (hI (.insertInvocation _) hkey) fun r hr => ?_)
    fun _ _ => ?_
  · cases r with
    | ok v => trivial
    | error e => exact hE.database _ e hr
  refine .bind (V := fun o => ∃ r, o = some r ∧ r.threadId ≠ s.threadId)
    (within_perform (hI (.selectInvocation _ _) hkey) fun r hr => ?_) fun o ho => ?_
  · cases r with
    | ok o => exact hsel o hr
    | error e => exact hE.database _ e hr
  obtain ⟨r, rfl, hne⟩ := ho
  refine .bind (within_raiseIf fun _ => hconflict _) fun _ hc => ?_
  simp [hne] at hc

/-- A conversation of somebody else stops it before. -/
theorem stops_foreign (toolName : String) (requestedInput : PyMapping)
    (approvalRequired allowEffectiveMatch : Bool) {thread : String}
    (ht : s.threadId = some thread) (hne : thread ≠ "")
    (hfor : ∀ o, A (.selectConversation thread) (.ok o) → ∃ c, o = some c ∧ c.userId ≠ s.userId) :
    (ensureInvocation sha256 s.userId s.threadId runtimeRunId s.toolCallId toolName requestedInput
      approvalRequired allowEffectiveMatch).Within I A (fun _ => False) E := by
  unfold ensureInvocation
  refine within_firstChecks hE hI fun h _ _ => ?_
  obtain ⟨o, ho, hmine⟩ := h thread ht hne
  obtain ⟨c, hc, hforeign⟩ := hfor o ho
  exact absurd (hmine c hc) hforeign

/-- A call ends where its first scope is stopped. -/
theorem stops_runCall {call : Call} (hs : call.scopes.head? = some s)
    (hrid : call.runtimeRunId = runtimeRunId) (hlost : ¬ E .concurrentDecision)
    (hstop : ∀ toolName requestedInput approvalRequired allowEffectiveMatch,
      (ensureInvocation sha256 s.userId s.threadId runtimeRunId s.toolCallId toolName
        requestedInput approvalRequired allowEffectiveMatch).Within I A (fun _ => False) E) :
    (runCall sha256 call).Within I A (fun _ => False) E := by
  have hundo : ∀ {α : Type} {body : Db α}, body.Within I A (fun _ => False) E →
      (rollbackOnError body).Within I A (fun _ => False) E := fun h =>
    within_rollbackOnError h (hI .rollback trivial) fun e he => hE.database _ e he
  cases call with
  | ensurePendingApprovals userId threadId rid toolCalls =>
    cases toolCalls with
    | nil => exact absurd hs (by simp [Call.scopes])
    | cons toolCall toolCalls =>
      simp only [Call.scopes, List.map_cons, List.head?_cons, Option.some.injEq] at hs
      subst hs hrid
      refine .bind (V := fun _ => False) (hundo ?_) fun _ h => h.elim
      refine .bind (V := fun _ => False) ?_ fun _ h => h.elim
      refine .bind (V := fun _ => False) ?_ fun _ h => h.elim
      exact .bind (V := fun _ => False) (hstop _ _ _ _) fun _ h => h.elim
  | recordApprovalDecisions userId threadId rid decisions =>
    cases decisions with
    | nil => exact absurd hs (by simp [Call.scopes])
    | cons d decisions =>
      simp only [Call.scopes, List.map_cons, List.head?_cons, Option.some.injEq] at hs
      subst hs hrid
      refine .bind (V := fun _ => False) ?_ fun _ h => h.elim
      refine .bind (V := fun _ => True) (within_perform (hI .utcnow trivial) fun r hr => ?_)
        fun now _ => ?_
      · cases r with
        | ok v => trivial
        | error e => exact hE.database _ e hr
      refine .bind (V := fun _ => False) (.tryCatch (E := E) ?_ fun e he => ?_) fun _ h => h.elim
      · refine .bind (V := fun _ => False) ?_ fun _ h => h.elim
        refine .bind (V := fun _ => False) ?_ fun _ h => h.elim
        refine .bind (V := fun _ => False) ?_ fun _ h => h.elim
        exact .bind (V := fun _ => False) (hstop _ _ _ _) fun _ h => h.elim
      · refine .bind (V := fun _ => True) (within_perform (hI .rollback trivial) fun r hr => ?_)
          fun _ _ => ?_
        · cases r with
          | ok v => trivial
          | error e => exact hE.database _ e hr
        · -- the first pass was not stopped by a lost race
          have hne : e ≠ .concurrentDecision := by
            rintro rfl
            exact hlost he
          rw [if_neg hne]
          exact .throw he
  | claimToolInvocation userId threadId rid toolCallId toolName requestedInput =>
    simp only [Call.scopes, List.head?_cons, Option.some.injEq] at hs
    subst hs hrid
    refine .bind (V := fun _ => False) ?_ fun _ h => h.elim
    refine .bind (V := fun _ => False) (hundo ?_) fun _ h => h.elim
    exact .bind (V := fun _ => False) (hstop _ _ _ _) fun _ h => h.elim
  | _ => exact absurd hs (by simp [Call.scopes])

omit hE hI in
/-- A call does not get past a scope that is stopped, and does not commit. -/
theorem stops_somewhere {call : Call} (hs : s ∈ call.scopes)
    (hstop : ∀ toolName requestedInput approvalRequired allowEffectiveMatch,
      (ensureInvocation sha256 s.userId s.threadId call.runtimeRunId s.toolCallId toolName
        requestedInput approvalRequired allowEffectiveMatch).Within (· ≠ Stmt.commit) A
          (fun _ => False) fun _ => True) :
    (runCall sha256 call).Within (· ≠ Stmt.commit) A (fun _ => False) fun _ => True := by
  have hundo : ∀ {α : Type} {body : Db α},
      body.Within (· ≠ Stmt.commit) A (fun _ => False) (fun _ => True) →
      (rollbackOnError body).Within (· ≠ Stmt.commit) A (fun _ => False) fun _ => True :=
    fun h => within_rollbackOnError h (by simp) fun _ _ => trivial
  cases call with
  | ensurePendingApprovals userId threadId rid toolCalls =>
    obtain ⟨toolCall, htc, rfl⟩ := List.mem_map.mp hs
    refine .bind (V := fun _ => False) (hundo ?_) fun _ h => h.elim
    refine .bind (V := fun _ => False) ?_ fun _ h => h.elim
    refine .forM_stops ?_ htc fun tc _ => within_ensurePendingApproval .noCommit _ trivial
    exact .bind (V := fun _ => False) (hstop _ _ _ _) fun _ h => h.elim
  | recordApprovalDecisions userId threadId rid decisions =>
    obtain ⟨d, hd, rfl⟩ := List.mem_map.mp hs
    have hload : ∀ {α : Type} {f : ToolInvocation × Approval → Db α},
        (loadDecisionRows sha256 userId threadId rid d >>= f).Within (· ≠ Stmt.commit) A
          (fun _ => False) fun _ => True := fun {_ _} =>
      .bind (V := fun _ => False) (.bind (V := fun _ => False) (hstop _ _ _ _) fun _ h => h.elim)
        fun _ h => h.elim
    refine .bind (V := fun _ => False) ?_ fun _ h => h.elim
    refine .bind (within_any .noCommit (o := .utcnow) trivial) fun now _ => ?_
    refine .bind (V := (· = false)) (.tryCatch (E := fun _ => True) ?_ fun e _ => ?_)
      fun finished hfin => ?_
    · refine Raising.Within.mono (V := fun _ => False) ?_ (fun _ h => h.elim) fun _ h => h
      refine .bind (V := fun _ => False) ?_ fun _ h => h.elim
      refine .forM_stops ?_ hd fun d _ => within_recordDecision .noCommit _ _ trivial
      exact hload
    · refine .bind (within_any .noCommit (o := .rollback) trivial) fun _ _ => ?_
      split
      · exact .pure rfl
      · exact .throw trivial
    · subst hfin
      refine hundo (.bind (V := fun _ => False) ?_ fun _ h => h.elim)
      refine .forM_stops ?_ hd fun d _ => within_verifyDecision .noCommit _ trivial
      exact hload
  | claimToolInvocation userId threadId rid toolCallId toolName requestedInput =>
    rw [List.mem_singleton.mp hs] at hstop
    refine .bind (V := fun _ => False) ?_ fun _ h => h.elim
    refine .bind (V := fun _ => False) (hundo ?_) fun _ h => h.elim
    exact .bind (V := fun _ => False) (hstop _ _ _ _) fun _ h => h.elim
  | _ => exact absurd hs (by simp [Call.scopes])

omit hE hI in
/-- **A batch and what stands before the stopped scope.** The call does what the call of the
    earlier elements alone does, until that call would be past them; from there on it raises for
    the scope. -/
theorem shares_runCall {call : Call} {before after : List Scope}
    (hs : call.scopes = before ++ s :: after) (hrollback : ∀ e, A .rollback (.error e) → E e)
    (hlost : ¬ E .concurrentDecision)
    (hstop : ∀ toolName requestedInput approvalRequired allowEffectiveMatch,
      (ensureInvocation sha256 s.userId s.threadId call.runtimeRunId s.toolCallId toolName
        requestedInput approvalRequired allowEffectiveMatch).Within (fun _ => True) A
          (fun _ => False) E) :
    (runCall sha256 call).Shares A E (fun _ _ => False)
      (runCall sha256 (call.upTo before.length)) := by
  have hundo : ∀ {α : Type} {x y : Db α}, x.Shares A E (fun _ _ => False) y →
      (rollbackOnError x).Shares A E (fun _ _ => False) (rollbackOnError y) := by
    intro α x y h
    refine .tryCatch h (fun e he => ?_) fun e => .bind (.refl _) fun _ _ _ => .throw
    refine .bind (V := fun _ => True) (within_perform (o := .rollback) trivial fun r hr => ?_)
      fun _ _ => .throw he
    cases r with
    | ok v => trivial
    | error e => exact hrollback e hr
  -- the list the call goes through, split where its scopes are
  have hsplit : ∀ {ι : Type} {f : ι → Scope} {xs : List ι}, xs.map f = before ++ s :: after →
      ∃ l x l', xs = l ++ x :: l' ∧ xs.take before.length = l ∧ f x = s := by
    intro ι f xs h
    obtain ⟨l, l₁, rfl, hl, h₁⟩ := List.map_eq_append_iff.mp h
    obtain ⟨x, l', rfl, hx, -⟩ := List.map_eq_cons_iff.mp h₁
    refine ⟨l, x, l', rfl, ?_, hx⟩
    rw [← hl, List.length_map, List.take_left]
  cases call with
  | ensurePendingApprovals userId threadId rid toolCalls =>
    obtain ⟨l, tc, l', rfl, htake, rfl⟩ := hsplit hs
    simp only [Call.upTo, htake]
    refine .bind (P := fun _ _ => False) (hundo ?_) fun _ _ h => h.elim
    refine .bind (P := fun _ _ => False) (.forM_stops l' ?_ l) fun _ _ h => h.elim
    exact .bind (V := fun _ => False) (hstop _ _ _ _) fun _ h => h.elim
  | recordApprovalDecisions userId threadId rid decisions =>
    obtain ⟨l, d, l', rfl, htake, rfl⟩ := hsplit hs
    simp only [Call.upTo, htake]
    have hload : ∀ {α : Type} {f : ToolInvocation × Approval → Db α},
        (loadDecisionRows sha256 userId threadId rid d >>= f).Within (fun _ => True) A
          (fun _ => False) E := fun {_ _} =>
      .bind (V := fun _ => False) (.bind (V := fun _ => False) (hstop _ _ _ _) fun _ h => h.elim)
        fun _ h => h.elim
    refine .bind (P := fun _ _ => False) ?_ fun _ _ h => h.elim
    refine .bind (.refl _) fun now now' hnow => ?_
    subst hnow
    refine .bind (P := fun a b => a = false ∧ b = false) ?_ fun _ _ h => ?_
    · refine .tryCatch (E := E) ?_ (fun e he => ?_) fun e => ?_
      · refine .bind (P := fun _ _ => False) ?_ fun _ _ h => h.elim
        exact .forM_stops l' hload l
      · refine .bind (V := fun _ => True) (within_perform (o := .rollback) trivial fun r hr => ?_)
          fun _ _ => ?_
        · cases r with
          | ok v => trivial
          | error e => exact hrollback e hr
        · have hne : e ≠ .concurrentDecision := by
            rintro rfl
            exact hlost he
          rw [if_neg hne]
          exact .throw he
      · refine .bind (.refl _) fun _ _ _ => ?_
        by_cases he : e = .concurrentDecision
        · rw [if_pos he]
          exact .pure ⟨rfl, rfl⟩
        · rw [if_neg he]
          exact .throw
    · -- both go over their list a second time
      obtain ⟨rfl, rfl⟩ := h
      refine hundo (.bind (P := fun _ _ => False) ?_ fun _ _ h => h.elim)
      exact .forM_stops l' hload l
  | claimToolInvocation userId threadId rid toolCallId toolName requestedInput =>
    have hhead : s = ⟨userId, threadId, toolCallId⟩ := by
      cases before with
      | nil => exact (List.cons.inj hs).1.symm
      | cons s' before => exact absurd (List.cons.inj hs).2 (by simp)
    subst hhead
    refine .leaves (.bind (V := fun _ => False) ?_ fun _ h => h.elim)
    refine .bind (V := fun _ => False) (within_rollbackOnError ?_ trivial hrollback) fun _ h => h.elim
    exact .bind (V := fun _ => False) (hstop _ _ _ _) fun _ h => h.elim
  | _ => exact absurd hs (by simp [Call.scopes])

end

/-! ## What a call that is stopped has done -/

/-- The store is as it was, but for what the session itself may have had to undo. -/
def Untouched (i : Nat) (s s' : Store) : Prop := s' = s ∨ s' = s.rollback i

/-- A statement that looks under keys that are there writes nothing. -/
theorem untouched_of_looks {key : String → String → Prop} {o : Stmt} {s s' : Store}
    {r : toolSig.Res o} (ho : o.Looks key)
    (hkey : ∀ userId k, key userId k → (s.findSlot (Slot.seesInvocation i userId k)).isSome = true)
    (h : toolDb.sem i o s r s') : Untouched i s s' := by
  have hsame : ∀ {v : toolSig.Res o}, some (v, s) = some (r, s') → s' = s := by
    intro v hv
    simp only [Option.some.injEq, Prod.mk.injEq] at hv
    exact hv.2.symm
  rcases run_of_sem h with ⟨-, rfl⟩ | ⟨now, he⟩
  · exact .inl rfl
  cases o with
  | insertInvocation row =>
    simp only [Stmt.run, hkey _ _ ho, if_true] at he
    exact .inl (hsame he)
  | rollback =>
    simp only [Stmt.run, Option.some.injEq, Prod.mk.injEq] at he
    exact .inr he.2.symm
  | utcnow => exact .inl (hsame he)
  | selectConversation threadId => exact .inl (hsame he)
  | selectInvocation userId k => exact .inl (hsame he)
  | selectApproval userId k => exact .inl (hsame he)
  | insertApproval row => exact absurd ho.1 id
  | _ => exact absurd ho id

/-- What the statements of a run were answered. -/
def Answered (i : Nat) (tr : List (Store × Store)) (o : toolSig.Op) (r : toolSig.Res o) : Prop :=
  ∃ q ∈ tr, toolDb.sem i o q.1 r q.2

/-- Only the driver makes a statement fail. -/
theorem Answered.error {tr : List (Store × Store)} {o : Stmt} {e : PyError}
    (h : Answered i tr o (.error e)) : e = .databaseError := by
  obtain ⟨q, -, h⟩ := h
  rcases run_of_sem h with ⟨he, -⟩ | ⟨now, he⟩
  · simpa using he
  cases o with
  | insertInvocation row => cases (run_insertInvocation he).1
  | updateInvocation id condition values =>
    rcases run_updateInvocation he with ⟨hok, -⟩ | ⟨_, -, -, -, hok, -⟩ <;> cases hok
  | insertApproval row =>
    rcases run_insertApproval he with ⟨_, -, hok, -⟩ | ⟨herror, -⟩ | ⟨_, -, -, -, hok, -⟩
    · cases hok
    · exact Except.error.inj herror
    · cases hok
  | updateApproval id condition values =>
    rcases run_updateApproval he with ⟨hok, -⟩ | ⟨_, -, -, -, hok, -⟩ <;> cases hok
  | _ => simp [Stmt.run] at he

/-- A statement that has answered ran in one of the states met. -/
theorem Answered.ran {tr : List (Store × Store)} {o : Stmt} {a : o.Val}
    (h : Answered i tr o (.ok a)) :
    ∃ q ∈ tr, ∃ now, o.run i now q.1 = some (.ok a, q.2) := by
  obtain ⟨q, hq, h⟩ := h
  rcases run_of_sem h with ⟨he, -⟩ | ⟨now, he⟩
  · exact absurd he (by simp)
  · exact ⟨q, hq, now, he⟩

/-- What the lookup of a conversation answered was in the store at the time. -/
theorem Answered.conversation {tr : List (Store × Store)} {thread : String}
    {o : Option Conversation} (h : Answered i tr (.selectConversation thread) (.ok o)) :
    ∃ q ∈ tr, q.1.conversation thread = o := by
  obtain ⟨q, hq, now, he⟩ := h.ran
  simp only [Stmt.run, Option.some.injEq, Prod.mk.injEq, Except.ok.injEq] at he
  exact ⟨q, hq, he.1⟩

/-- The same for the lookup of an invocation. -/
theorem Answered.invocation {tr : List (Store × Store)} {userId key : String}
    {o : Option ToolInvocation} (h : Answered i tr (.selectInvocation userId key) (.ok o)) :
    ∃ q ∈ tr, (q.1.findSlot (Slot.seesInvocation i userId key)).bind
      (fun n => (q.1.slot n).invocation.view i) = o := by
  obtain ⟨q, hq, now, he⟩ := h.ran
  simp only [Stmt.run, Option.some.injEq, Prod.mk.injEq, Except.ok.injEq] at he
  exact ⟨q, hq, he.1⟩

/-- A committed row is found under its key, whoever looks, and nothing else is. -/
theorem Inv.find_committed (hi : Inv sha256 issued t) {n : Nat} {r : ToolInvocation}
    (hr : (t.store.slot n).invocation.committed = some r) (i : Nat) :
    ∃ r', (t.store.findSlot (Slot.seesInvocation i r.userId r.idempotencyKey)).bind
      (fun n => (t.store.slot n).invocation.view i) = some r' ∧ r.Evolves r' ∧
        (t.store.findSlot (Slot.seesInvocation i r.userId r.idempotencyKey)).isSome = true := by
  obtain ⟨r', hr'⟩ := (hi.slots n).view_of_committed (i := i) hr
  have he := (hi.slots n).view_evolves hr hr'
  cases hfind : t.store.findSlot (Slot.seesInvocation i r.userId r.idempotencyKey) with
  | none =>
    have := Store.findSlot_eq_none hfind (hi.lt_next hr')
    rw [Slot.seesInvocation_iff.mpr ⟨r', hr', he.userId, he.idempotencyKey⟩] at this
    exact absurd this (by decide)
  | some m =>
    obtain ⟨r₁, hr₁, hu, hk⟩ := Slot.seesInvocation_iff.mp (Store.findSlot_eq_some hfind).2
    have hm : m = n := hi.slot_eq hr₁ hr' (by rw [hu, he.userId]) (by rw [hk, he.idempotencyKey])
    subst hm
    exact ⟨r', hr', he, rfl⟩

/-- The states a call's own statements met, with what is known of them. -/
theorem exec_runCall {G : Tracked → Tracked → Prop} {K : Tracked → Prop} {call : Call}
    (hG : ∀ t t', Quiet i t t' → G t t') (hguar : ∀ t t', G t t' → Guar i t t')
    (hF : CallFrame sha256 (fun _ => True) i (Others i) G call K)
    {c c' : Config toolSig Store Nat} (hgood : (toolFamily sha256 fun _ => True).Good c t)
    (hidle : Idle i t) (hK : K t) {tr : List (Store × Store)} {outcome : Outcome}
    (hexec : toolDb.Exec i (runCall sha256 call).attempt c tr outcome c') :
    ∀ q ∈ tr, ∃ t₁ t₂, t₁.store = q.1 ∧ t₂.store = q.2 ∧ Inv sha256 (fun _ => True) t₁ ∧
      Inv sha256 (fun _ => True) t₂ ∧ G t₁ t₂ ∧
        ReflTransGen (toolFamily sha256 fun _ => True).Move t t₁ := by
  obtain ⟨-, -, -, -, htr⟩ := Machine.Family.GoodBut.exec (G := G) hguar hexec t
    (hgood.mono fun _ h => h.elim) fun t' ht =>
      spec_runCall others_spec hG hF trivial t hgood.inv ⟨hidle.atRest, hK⟩ t' ht
  exact htr

/-- A call made for a scope leaves nothing uncommitted, however it ends. -/
theorem exec_idle {call : Call} (hscopes : call.scopes ≠ [])
    {c c' : Config toolSig Store Nat} (hgood : (toolFamily sha256 fun _ => True).Good c t)
    (hidle : Idle i t) {tr : List (Store × Store)} {outcome : Outcome}
    (hexec : toolDb.Exec i (runCall sha256 call).attempt c tr outcome c') :
    ∀ n, (c'.store.slot n).invocation.own i = none ∧ (c'.store.slot n).approval.own i = none := by
  have hF : CallFrame sha256 (fun _ => True) i (Others i) (Guar i) call fun _ => True := .true call
  have hstable : (toolParty sha256 (fun _ => True) i (Others i) (Guar i)).Stable (Idle i) :=
    stable_idle others_spec
  have hnone : ∀ {body : Db Unit}, (toolParty sha256 (fun _ => True) i (Others i) (Guar i)).Spec
      (AtRest sha256 (fun _ => True) i) body (fun _ => Idle i) (fun _ => Idle i) →
      (toolParty sha256 (fun _ => True) i (Others i) (Guar i)).Spec
        (AtRest sha256 (fun _ => True) i) (do body; pure none : Db (Option ToolInvocationClaim))
        (fun _ => Idle i) fun _ => Idle i :=
    fun h => Party.Spec.bind h fun _ => Party.Spec.pure hstable fun _ _ h => h
  have hspec : (toolParty sha256 (fun _ => True) i (Others i) (Guar i)).Spec
      (AtRest sha256 (fun _ => True) i) (runCall sha256 call) (fun _ => Idle i) fun _ => Idle i := by
    cases call with
    | ensurePendingApprovals userId threadId runtimeRunId toolCalls =>
      refine hnone ((spec_ensurePendingApprovals (K := fun _ => True) (E := fun _ _ => True)
        others_spec quiet_guar (fun _ => Party.Stable.pure _) (fun _ => hstable)
        (Party.Stable.pure _) (fun _ _ => Survives.true) (fun _ _ => Withstands.true)
        (fun tc htc r hr => ⟨.ensurePendingApprovals userId threadId runtimeRunId toolCalls, trivial,
          tc, htc, hr⟩) (fun _ _ => Excused.true) (fun _ _ _ => trivial) (fun _ _ _ _ hg => hg) fun _ _ _ _ hid _ => hid).conseq
          (fun _ _ h => ⟨h.1, trivial⟩) (fun _ _ _ h => h.1) fun _ _ _ h => h)
    | recordApprovalDecisions userId threadId runtimeRunId decisions =>
      exact hnone ((spec_recordApprovalDecisions (K := fun _ => True) others_spec quiet_guar
        (Party.Stable.pure _) (fun _ _ _ => trivial) (fun _ _ => Survives.true)
        (fun _ _ => Withstands.true) trivial fun _ _ _ _ hg => hg).conseq
          (fun _ _ h => ⟨h.1, trivial⟩) (fun _ _ _ h => h.1) fun _ _ _ h => h)
    | claimToolInvocation userId threadId runtimeRunId toolCallId toolName requestedInput =>
      refine Party.Spec.bind ((spec_claimToolInvocation others_spec quiet_guar trivial
        (ClaimFrame.basic hF others_spec (by simp [Call.scopes]))).conseq
          (fun _ _ h => ⟨h.1, h.2, trivial⟩) (fun _ _ _ h => h.1) fun _ _ _ h => h.1) fun _ => ?_
      exact Party.Spec.pure hstable fun _ _ h => h
    | _ => exact absurd rfl hscopes
  obtain ⟨t', hgood', hpost, -, -⟩ := Machine.Family.GoodBut.exec (G := Guar i) (fun _ _ h => h)
    hexec t (hgood.mono fun _ h => h.elim) fun t' ht => hspec t hgood.inv hidle.atRest t' ht
  have hreal : t'.store = c'.store := hgood'.real
  rw [← hreal]
  cases outcome with
  | error e => exact hpost
  | ok v => exact hpost

/-! ## Isolation -/

/-- The scopes a call is made for, in a store: those it names, and that of the invocation it
    finishes. -/
def Call.MadeFor (call : Call) (st : Store) (s : Scope) : Prop :=
  s ∈ call.scopes ∨ ∃ n r, call.finishes = some n ∧
    (st.slot n).invocation.committed = some r ∧ s = r.scope

theorem Inv.owns_iff (hi : Inv sha256 issued t) {n : Nat} {r : ToolInvocation} {u : Scope}
    (hr : (t.store.slot n).invocation.committed = some r)
    (hinj : sha256.hexdigest r.scope.text = sha256.hexdigest u.text → r.scope.text = u.text) :
    u.Owns sha256 r.userId r.idempotencyKey → r.scope.Coincides u := by
  intro h
  refine Scope.text_eq_iff.mp (hinj ?_)
  have hk := ((hi.slots n).committed_wf r hr).key
  rw [h.2] at hk
  exact hk.symm

/-- Calls for other scopes change no row of the scope. -/
theorem exec_keepsRows {u : Scope} {call : Call}
    (hkey : ∀ s ∈ call.scopes, ¬ u.Owns sha256 s.userId (s.key sha256))
    (hfin : ∀ n, call.finishes = some n → ∃ r, (t.store.slot n).invocation.committed = some r ∧
      ¬ u.Owns sha256 r.userId r.idempotencyKey)
    {c c' : Config toolSig Store Nat} (hgood : (toolFamily sha256 fun _ => True).Good c t)
    (hidle : Idle i t) {tr : List (Store × Store)} {outcome : Outcome}
    (hexec : toolDb.Exec i (runCall sha256 call).attempt c tr outcome c') :
    ∀ q ∈ tr, ∀ n r, ((q.1.slot n).invocation.committed = some r ∨
        (q.2.slot n).invocation.committed = some r) → r.scope = u →
      (q.2.slot n).invocation.committed = (q.1.slot n).invocation.committed ∧
      (q.2.slot n).approval.committed = (q.1.slot n).approval.committed := by
  have hK : KeepsOff sha256 u i call t := by
    refine ⟨fun n ho => ?_, hfin⟩
    rw [(hidle n).1, (hidle n).2] at ho
    exact absurd ho (by simp)
  intro q hq n r hr hu
  obtain ⟨t₁, t₂, h₁, h₂, hi₁, hi₂, ⟨-, hkeeps⟩, -⟩ := exec_runCall quiet_keepsRows
    (fun _ _ h => h.1) (CallFrame.keepsOff others_spec hkey) hgood hidle hK hexec q hq
  rw [← h₁, ← h₂] at hr ⊢
  refine hkeeps n r hr ?_
  have hwf : r.WellFormed sha256 (fun _ => True) n := by
    rcases hr with hr | hr
    · exact (hi₁.slots n).committed_wf r hr
    · exact (hi₂.slots n).committed_wf r hr
  subst hu
  exact ⟨rfl, hwf.key⟩

/-- Calls for other scopes do not depend on the rows of the scope. -/
theorem exec_answers {u : Scope} {call : Call}
    (hkey : ∀ s ∈ call.scopes, ¬ u.Owns sha256 s.userId (s.key sha256))
    (hfin : ∀ n, call.finishes = some n → ∃ r, (t.store.slot n).invocation.committed = some r ∧
      ¬ u.Owns sha256 r.userId r.idempotencyKey)
    {c c' : Config toolSig Store Nat} (hgood : (toolFamily sha256 fun _ => True).Good c t)
    (hidle : Idle i t) {tr : List (Store × Store)} {outcome : Outcome}
    (hexec : toolDb.Exec i (runCall sha256 call).attempt c tr outcome c') :
    ∃ ms, ms.map Prod.snd = tr.map Prod.fst ∧
      toolDb.answers i (runCall sha256 call).attempt ms = some outcome ∧
      ∀ (N : Nat → Prop) ms', (∀ n, N n → (t.store.slot n).Only sha256 u) →
        List.Forall₂ (fun p p' => p'.1 = p.1 ∧ Apart sha256 u N p.2 p'.2) ms ms' →
          toolDb.answers i (runCall sha256 call).attempt ms' = some outcome := by
  obtain ⟨ms, hms, hans⟩ := hexec.answers
  refine ⟨ms, hms, hans, fun N ms' hN hall => ?_⟩
  -- the states met are states of the system
  have hplaced : ∀ p ∈ ms, p.2.Placed := by
    intro p hp
    have hmem : p.2 ∈ tr.map Prod.fst := hms ▸ List.mem_map_of_mem hp
    obtain ⟨q, hq, he⟩ := List.mem_map.mp hmem
    obtain ⟨t₁, -, h₁, -, hi₁, -⟩ := exec_runCall quiet_guar (fun _ _ h => h)
      (CallFrame.true call) hgood hidle trivial hexec q hq
    rw [← he, ← h₁]
    exact hi₁.placed
  have hid : ∀ n, call.finishes = some n → ¬ N n := by
    intro n hn hNn
    obtain ⟨r, hr, hno⟩ := hfin n hn
    exact hno ((hN n hNn).invocation r (.inl hr))
  refine Machine.answers_congr (D := fun s s' => Apart sha256 u N s s' ∧ s.Placed)
    (fun s s' o ch r s₁ h ho he => exec_apart h.1 h.2 ho he) ?_ (within_runCall hkey hid) hans
  exact ((List.forall₂_and_left _ _).mpr ⟨hplaced, hall⟩).imp fun p p' h => ⟨h.2.1, h.2.2, h.1⟩

/-- A row of another scope under the key is met by every statement of a call that looks for it. -/
theorem exec_meets {s u : Scope} {call : Call} (hne : s ≠ u) (hsu : s.Coincides u) {n : Nat}
    {r : ToolInvocation} (hr : (t.store.slot n).invocation.committed = some r) (hru : r.scope = u)
    {c c' : Config toolSig Store Nat} (hgood : (toolFamily sha256 fun _ => True).Good c t)
    (hidle : Idle i t) {tr : List (Store × Store)} {outcome : Outcome}
    (hexec : toolDb.Exec i (runCall sha256 call).attempt c tr outcome c') :
    ∀ q ∈ tr, ∃ r', (q.1.findSlot (Slot.seesInvocation i s.userId (s.key sha256))).bind
        (fun n => (q.1.slot n).invocation.view i) = some r' ∧ r'.threadId ≠ s.threadId ∧
      (q.1.findSlot (Slot.seesInvocation i s.userId (s.key sha256))).isSome = true := by
  subst hru
  have hkey : r.idempotencyKey = s.key sha256 := by
    rw [((hgood.inv.slots n).committed_wf r hr).key]
    exact (congrArg sha256.hexdigest (Scope.text_eq_iff.mpr hsu)).symm
  have huser : r.userId = s.userId := hsu.1.symm
  have hthread : r.threadId ≠ s.threadId := fun h => hne (Scope.ext hsu.1 h.symm hsu.2.2)
  intro q hq
  obtain ⟨t₁, -, h₁, -, hi₁, -, -, hpath⟩ := exec_runCall quiet_guar (fun _ _ h => h)
    (CallFrame.true call) hgood hidle trivial hexec q hq
  -- the row may have changed since the call began, but not in what it is found by
  obtain ⟨r₁, hr₁, he₁⟩ := (moves_later hgood.inv hpath n).1 r hr
  obtain ⟨r₂, hr₂, he₂, hsome⟩ := hi₁.find_committed hr₁ i
  rw [he₁.userId, he₁.idempotencyKey, huser, hkey, h₁] at hr₂ hsome
  exact ⟨r₂, hr₂, by rw [he₂.threadId, he₁.threadId]; exact hthread, hsome⟩

/-- A row of another scope under the key stops every call for the scope: with a conflict, unless
    the call of the elements before it ends in an exception of its own. -/
theorem exec_coinciding {s u : Scope} {call : Call} {before after : List Scope}
    (hs : call.scopes = before ++ s :: after) (hne : s ≠ u)
    (hsu : s.Coincides u) {n : Nat} {r : ToolInvocation}
    (hr : (t.store.slot n).invocation.committed = some r) (hru : r.scope = u)
    {c c' : Config toolSig Store Nat} (hgood : (toolFamily sha256 fun _ => True).Good c t)
    (hidle : Idle i t) {tr : List (Store × Store)} {outcome : Outcome}
    (hexec : toolDb.Exec i (runCall sha256 call).attempt c tr outcome c') :
    (Refused (∃ q ∈ tr, Foreign s.userId s.threadId q.1) outcome ∨
      ∃ e met, outcome = .error e ∧ met.map Prod.snd = tr.map Prod.fst ∧
        toolDb.answers i (runCall sha256 (call.upTo before.length)).attempt met =
          some (.error e)) ∧
    (∀ q ∈ tr, SameCommitted q.1 q.2) ∧
    (∀ n, (c'.store.slot n).invocation.own i = none ∧ (c'.store.slot n).approval.own i = none) ∧
    (before = [] → Refused (∃ q ∈ tr, Foreign s.userId s.threadId q.1) outcome ∧
      ∀ q ∈ tr, Untouched i q.1 q.2) := by
  have hmem : s ∈ call.scopes := by
    rw [hs]
    exact List.mem_append_right _ List.mem_cons_self
  -- the row is there whenever the call looks
  have hmet := exec_meets hne hsu hr hru hgood hidle hexec
  have hsel : ∀ o, Answered i tr (.selectInvocation s.userId (s.key sha256)) (.ok o) →
      ∃ r, o = some r ∧ r.threadId ≠ s.threadId := by
    intro o ho
    obtain ⟨q, hq, he⟩ := ho.invocation
    obtain ⟨r', hr', hne', -⟩ := hmet q hq
    exact ⟨r', by rw [← he, hr'], hne'⟩
  have hE : Excuses (Answered i tr) s call.runtimeRunId
      (Refusal (∃ q ∈ tr, Foreign s.userId s.threadId q.1)) := by
    refine ⟨fun _ m => .inl ⟨m, rfl⟩, fun thread c ht hth hc hcu m => .inr (.inl ⟨?_, m, rfl⟩),
      fun o e he => .inr (.inr he.error)⟩
    obtain ⟨q, hq, hqc⟩ := hc.conversation
    exact ⟨q, hq, thread, c, ht, hth, hqc, hcu⟩
  have hlost : ¬ Refusal (∃ q ∈ tr, Foreign s.userId s.threadId q.1) .concurrentDecision := by
    simp [Refusal]
  refine ⟨?_, fun q hm => ?_, ?_, fun hhead => ?_⟩
  · have hlooks : ∀ o : Stmt, o.Looks (fun _ _ => True) → True := fun _ _ => trivial
    have hshares := shares_runCall hs (fun e he => hE.database _ e he) hlost
      fun toolName requestedInput b b' => stops_ensureInvocation hE hlooks toolName requestedInput
        b b' trivial (fun m => .inl ⟨m, rfl⟩) hsel
    rcases hexec.shares hshares fun q hq o r h => ⟨q, hq, h⟩ with hend | ⟨b, met, hmet, hans, hb⟩
    · cases outcome with
      | ok v => exact hend.elim
      | error e => exact .inl ⟨e, rfl, hend⟩
    · cases outcome with
      | ok v => cases b <;> exact hb.elim
      | error e =>
        cases b with
        | ok v => exact hb.elim
        | error e' =>
          have he : e = e' := hb
          subst he
          exact .inr ⟨e, met, rfl, hmet, hans⟩
  · have hE' : Excuses (Answered i tr) s call.runtimeRunId fun _ => True :=
      ⟨fun _ _ => trivial, fun _ _ _ _ _ _ _ => trivial, fun _ _ _ => trivial⟩
    have hlooks : ∀ o : Stmt, o.Looks (fun _ _ => True) → o ≠ Stmt.commit := by
      rintro o ho rfl
      exact ho
    have hstop := stops_somewhere (A := Answered i tr) hmem fun toolName requestedInput b b' =>
      stops_ensureInvocation hE' hlooks toolName requestedInput b b' trivial (fun _ => trivial) hsel
    obtain ⟨-, hq⟩ := hexec.within hstop fun q hq o r _ h => ⟨q, hq, h⟩
    obtain ⟨o, r', ho, -, hsem⟩ := hq q hm
    exact sameCommitted_of_sem hsem (not_commits r' ho)
  · exact exec_idle (List.ne_nil_of_mem hmem) hgood hidle hexec
  · let key : String → String → Prop := fun userId k => userId = s.userId ∧ k = s.key sha256
    have hlooks : ∀ o : Stmt, o.Looks key → Stmt.Looks key o := fun _ h => h
    have hfirst : call.scopes.head? = some s := by
      rw [hs, hhead]
      rfl
    have hstop := stops_runCall hE hlooks hfirst rfl hlost
      fun toolName requestedInput b b' => stops_ensureInvocation hE hlooks toolName requestedInput
        b b' ⟨rfl, rfl⟩ (fun m => .inl ⟨m, rfl⟩) hsel
    obtain ⟨hend, hq⟩ := hexec.within hstop fun q hq o r _ h => ⟨q, hq, h⟩
    refine ⟨?_, fun q hm => ?_⟩
    · cases outcome with
      | ok v => exact hend.elim
      | error e => exact ⟨e, rfl, hend⟩
    · obtain ⟨o, r', ho, -, hsem⟩ := hq q hm
      obtain ⟨-, -, -, hsome⟩ := hmet q hm
      refine untouched_of_looks ho (fun userId k hk => ?_) hsem
      rw [hk.1, hk.2]
      exact hsome

/-- A conversation that is somebody else's all along stops a call before it looks at the rows. -/
theorem exec_foreign {s : Scope} {call : Call} (hhead : call.scopes.head? = some s)
    {c c' : Config toolSig Store Nat} {tr : List (Store × Store)} {outcome : Outcome}
    (hstart : Foreign s.userId s.threadId c.store)
    (hforeign : ∀ q ∈ tr, Foreign s.userId s.threadId q.1)
    (hexec : toolDb.Exec i (runCall sha256 call).attempt c tr outcome c') :
    (∃ e, outcome = .error e ∧ ((∃ message, e = .toolInvocationOwnershipError message) ∨
      e = .databaseError ∨ (¬ ValidIdentity s.threadId call.runtimeRunId s.toolCallId ∧
        ∃ message, e = .toolInvocationConflict message))) ∧
    ∀ q ∈ tr, Untouched i q.1 q.2 := by
  obtain ⟨thread, -, ht, hth, -, -⟩ := hstart
  let E : PyError → Prop := fun e => (∃ message, e = .toolInvocationOwnershipError message) ∨
    e = .databaseError ∨ (¬ ValidIdentity s.threadId call.runtimeRunId s.toolCallId ∧
      ∃ message, e = .toolInvocationConflict message)
  have hE : Excuses (Answered i tr) s call.runtimeRunId E :=
    ⟨fun hv m => .inr (.inr ⟨hv, m, rfl⟩), fun _ _ _ _ _ _ m => .inl ⟨m, rfl⟩,
      fun o e he => .inr (.inl he.error)⟩
  have hfor : ∀ o, Answered i tr (.selectConversation thread) (.ok o) →
      ∃ c, o = some c ∧ c.userId ≠ s.userId := by
    intro o ho
    obtain ⟨q, hq, he⟩ := ho.conversation
    obtain ⟨thread', c, ht', -, hconv, hcu⟩ := hforeign q hq
    rw [ht, Option.some.injEq] at ht'
    subst ht'
    exact ⟨c, by rw [← he, hconv], hcu⟩
  have hlooks : ∀ o : Stmt, o.Looks (fun _ _ => False) → Stmt.Looks (fun _ _ => False) o :=
    fun _ h => h
  have hstop : (runCall sha256 call).Within (Stmt.Looks fun _ _ => False) (Answered i tr)
      (fun _ => False) E := stops_runCall hE hlooks hhead rfl (by simp [E])
    fun toolName requestedInput b b' =>
      stops_foreign hE hlooks toolName requestedInput b b' ht hth hfor
  obtain ⟨hend, hq⟩ := hexec.within hstop fun q hq o r _ h => ⟨q, hq, h⟩
  refine ⟨?_, fun q hm => ?_⟩
  · cases outcome with
    | ok v => exact hend.elim
    | error e => exact ⟨e, rfl, hend⟩
  · obtain ⟨o, r, ho, -, hsem⟩ := hq q hm
    exact untouched_of_looks ho (fun _ _ h => h.elim) hsem

/-- **Scope isolation.** `u` is any scope, and the digest tells the texts of the scopes the call is
    made for from its text. Where none of those scopes coincides with `u`, no statement of the call
    changes a row of `u`, and the call ends in the same way on all stores that differ from those it
    met in rows of `u`. Where one coincides without being `u` and `u` has a row, wherever it stands
    in a batch, the call raises, no committed row has changed and nothing is left uncommitted; the
    exception is a conflict, unless the thread is somebody else's, the database failed, or the
    elements before it, called alone on the states met, raise the same. When it is the first scope
    of the call, nothing has been written at all. Where
    the conversation of the thread is somebody else's, the call raises an ownership error, unless
    its arguments are malformed or the database failed, and nothing has been written. -/
theorem scope_isolation {conversation : String → Option Conversation} {calls : Nat → List Call}
    {c c' : Config toolSig Store Nat}
    (hc : toolDb.Steps (start sha256 conversation calls) c) {i : Nat}
    (hidle : ∀ n, (c.store.slot n).invocation.own i = none ∧
      (c.store.slot n).approval.own i = none) {call : Call}
    (hclaim : ∀ n, call.finishes = some n →
      ∃ r, (c.store.slot n).invocation.committed = some r) {u : Scope}
    (hinj : ∀ s, call.MadeFor c.store s →
      sha256.hexdigest s.text = sha256.hexdigest u.text → s.text = u.text)
    {tr : List (Store × Store)} {outcome : Outcome}
    (hexec : toolDb.Exec i (runCall sha256 call).attempt c tr outcome c') :
    ((∀ s, call.MadeFor c.store s → ¬ s.Coincides u) →
      (∀ q ∈ tr, ∀ n r, ((q.1.slot n).invocation.committed = some r ∨
          (q.2.slot n).invocation.committed = some r) → r.scope = u →
        (q.2.slot n).invocation.committed = (q.1.slot n).invocation.committed ∧
        (q.2.slot n).approval.committed = (q.1.slot n).approval.committed) ∧
      ∃ met, met.map Prod.snd = tr.map Prod.fst ∧
        toolDb.answers i (runCall sha256 call).attempt met = some outcome ∧
        ∀ (N : Nat → Prop) met', (∀ n, N n → (c.store.slot n).Only sha256 u) →
          List.Forall₂ (fun p p' => p'.1 = p.1 ∧ Apart sha256 u N p.2 p'.2) met met' →
            toolDb.answers i (runCall sha256 call).attempt met' = some outcome) ∧
    (∀ s before after, call.scopes = before ++ s :: after → s ≠ u → s.Coincides u →
      (∃ n r, (c.store.slot n).invocation.committed = some r ∧ r.scope = u) →
      (Refused (∃ q ∈ tr, Foreign s.userId s.threadId q.1) outcome ∨
        ∃ e met, outcome = .error e ∧ met.map Prod.snd = tr.map Prod.fst ∧
          toolDb.answers i (runCall sha256 (call.upTo before.length)).attempt met =
            some (.error e)) ∧
      (∀ q ∈ tr, SameCommitted q.1 q.2) ∧
      (∀ n, (c'.store.slot n).invocation.own i = none ∧
        (c'.store.slot n).approval.own i = none) ∧
      (before = [] → Refused (∃ q ∈ tr, Foreign s.userId s.threadId q.1) outcome ∧
        ∀ q ∈ tr, Untouched i q.1 q.2)) ∧
    (∀ s, call.scopes.head? = some s → Foreign s.userId s.threadId c.store →
      (∀ q ∈ tr, Foreign s.userId s.threadId q.1) →
      (∃ e, outcome = .error e ∧ ((∃ message, e = .toolInvocationOwnershipError message) ∨
        e = .databaseError ∨ (¬ ValidIdentity s.threadId call.runtimeRunId s.toolCallId ∧
          ∃ message, e = .toolInvocationConflict message))) ∧
      ∀ q ∈ tr, Untouched i q.1 q.2) := by
  obtain ⟨t, hgood⟩ := reachable_good (fun _ => True) (fun _ _ _ => trivial) hc
  have hreal : t.store = c.store := hgood.real
  rw [← hreal] at hidle hclaim hinj ⊢
  refine ⟨fun happ => ?_, fun s before after hs hne hsu hrow => ?_,
    fun s hhead hstart hforeign => ?_⟩
  -- no row of the scope can be found by the keys of the call
  · have hkey : ∀ s ∈ call.scopes, ¬ u.Owns sha256 s.userId (s.key sha256) := fun s hs ho =>
      Scope.key_ne (hinj s (.inl hs)) (happ s (.inl hs)) ho.2
    have hfin : ∀ n, call.finishes = some n →
        ∃ r, (t.store.slot n).invocation.committed = some r ∧
          ¬ u.Owns sha256 r.userId r.idempotencyKey := by
      intro n hn
      obtain ⟨r, hr⟩ := hclaim n hn
      have hmade : call.MadeFor t.store r.scope := .inr ⟨n, r, hn, hr, rfl⟩
      exact ⟨r, hr, fun ho => happ _ hmade (hgood.inv.owns_iff hr (hinj _ hmade) ho)⟩
    exact ⟨exec_keepsRows hkey hfin hgood hidle hexec, exec_answers hkey hfin hgood hidle hexec⟩
  -- the key is the one of the row, which is of another scope
  · obtain ⟨n, r, hr, hru⟩ := hrow
    exact exec_coinciding hs hne hsu hr hru hgood hidle hexec
  -- the conversation is somebody else's
  · rw [hreal] at hstart
    exact exec_foreign hhead hstart hforeign hexec

end

/-! ## Calls next to one row -/

/-- Session 0 has a call without a thread registered. -/
def directCalls (i : Nat) : List Call :=
  if i = 0 then [.ensurePendingApprovals "user" none none
    [⟨some "call", some "search", .mapping []⟩]]
  else []

def directScope : Scope := ⟨"user", none, "call"⟩

/-- A claim of another call, and one of the same call in a thread called `<direct>`. -/
def otherClaim : Call := .claimToolInvocation "user" none none "other" "search" []

def namesakeClaim : Call := .claimToolInvocation "user" (some "<direct>") none "call" "search" []

/-- The two calls in one batch, in the thread called `<direct>`. -/
def namesakeBatch : Call := .ensurePendingApprovals "user" (some "<direct>") none
  [⟨some "other", some "search", .mapping []⟩, ⟨some "call", some "search", .mapping []⟩]

def namesake : Scope := ⟨"user", some "<direct>", "call"⟩

/-- The first is executed and leaves the row alone, the second is refused, and so is the batch,
    with what it had written for its first element. -/
theorem scope_isolation_directScope : ∃ c,
    toolDb.Steps (start .standard (fun _ => none) directCalls) c ∧
    (∃ tr c' claim, toolDb.Exec 1 (runCall .standard otherClaim).attempt c tr
        (.ok (some claim)) c' ∧ claim.shouldExecute = true ∧
      ∀ q ∈ tr, ∀ n r, ((q.1.slot n).invocation.committed = some r ∨
          (q.2.slot n).invocation.committed = some r) → r.scope = directScope →
        (q.2.slot n).invocation.committed = (q.1.slot n).invocation.committed ∧
        (q.2.slot n).approval.committed = (q.1.slot n).approval.committed) ∧
    (∃ tr c' outcome, toolDb.Exec 1 (runCall .standard namesakeClaim).attempt c tr outcome c' ∧
      Refused (∃ q ∈ tr, Foreign "user" (some "<direct>") q.1) outcome ∧
        ∀ q ∈ tr, Untouched 1 q.1 q.2) ∧
    ∃ tr c' message, toolDb.Exec 1 (runCall .standard namesakeBatch).attempt c tr
        (.error (.toolInvocationConflict message)) c' ∧ (∀ q ∈ tr, SameCommitted q.1 q.2) ∧
      ∀ n, (c'.store.slot n).invocation.own 1 = none ∧
        (c'.store.slot n).approval.own 1 = none := by
  have hsched : (toolDb.runSched (List.replicate 9 (0, .stmt ⟨false, 0⟩))
      (start .standard (fun _ => none) directCalls)).any (fun c => c.store.idle 1 &&
        (c.store.slot 0).invocation.committed.any (fun r => r.scope = directScope) &&
        ((toolDb.solo 1 (runCall .standard otherClaim).attempt (List.replicate 10 ⟨false, 0⟩)
          c.store).any fun p => p.1.toOption.any fun o => o.any fun claim => claim.shouldExecute) &&
        (toolDb.solo 1 (runCall .standard namesakeClaim).attempt (List.replicate 10 ⟨false, 0⟩)
          c.store).isSome && ((toolDb.solo 1 (runCall .standard namesakeBatch).attempt
            (List.replicate 20 ⟨false, 0⟩) c.store).any fun p => p.1 =
              .error (.toolInvocationConflict "同一幂等键已用于不同的工具名称或参数，已阻止重复执行"))) =
      true := by decide +kernel
  obtain ⟨c, hc, hrun⟩ := (Option.any_eq_true ..).mp hsched
  simp only [Bool.and_eq_true] at hrun
  obtain ⟨⟨⟨⟨hidle, hrow⟩, hother⟩, hnamesake⟩, hbatch⟩ := hrun
  obtain ⟨r, hr, hru⟩ := (Option.any_eq_true ..).mp hrow
  obtain ⟨⟨outcome, s'⟩, hother, hclaim⟩ := (Option.any_eq_true ..).mp hother
  obtain ⟨o, ho, hclaim⟩ := (Option.any_eq_true ..).mp hclaim
  obtain ⟨claim, hclaim, hexecute⟩ := (Option.any_eq_true ..).mp hclaim
  obtain ⟨⟨outcome₂, s₂⟩, hnamesake⟩ := Option.isSome_iff_exists.mp hnamesake
  obtain ⟨⟨outcome₃, s₃⟩, hbatch, hconflict⟩ := (Option.any_eq_true ..).mp hbatch
  obtain rfl : outcome₃ = _ := of_decide_eq_true hconflict
  have hsteps := toolDb.steps_of_runSched hc
  obtain ⟨t, hgood⟩ := reachable_good (fun _ => True) (fun _ _ _ => trivial) hsteps
  have hidle₁ := (Store.idle_iff hgood).mp hidle
  obtain ⟨tr, hexec⟩ := (Machine.Solo.of_solo toolDb _ _ hother).exec c.prog
  obtain ⟨tr₂, hexec₂⟩ := (Machine.Solo.of_solo toolDb _ _ hnamesake).exec c.prog
  obtain ⟨tr₃, hexec₃⟩ := (Machine.Solo.of_solo toolDb _ _ hbatch).exec c.prog
  have hmade : ∀ s, otherClaim.MadeFor c.store s → s = ⟨"user", none, "other"⟩ := by
    rintro s (hs | ⟨n, r, hn, -⟩)
    · exact List.mem_singleton.mp hs
    · exact absurd hn (by simp [otherClaim, Call.finishes])
  have hmade₂ : ∀ s, namesakeClaim.MadeFor c.store s → s = namesake := by
    rintro s (hs | ⟨n, r, hn, -⟩)
    · exact List.mem_singleton.mp hs
    · exact absurd hn (by simp [namesakeClaim, Call.finishes])
  have hmade₃ : ∀ s, namesakeBatch.MadeFor c.store s →
      s = ⟨"user", some "<direct>", "other"⟩ ∨ s = namesake := by
    rintro s (hs | ⟨n, r, hn, -⟩)
    · simpa [namesakeBatch, Call.scopes, orDefault, namesake] using hs
    · exact absurd hn (by simp [namesakeBatch, Call.finishes])
  have hiso := scope_isolation (u := directScope) hsteps hidle₁
    (fun n hn => absurd hn (by simp [otherClaim, Call.finishes]))
    (fun s hs hd => by
      rw [hmade s hs] at hd
      exact absurd hd (by decide +kernel)) hexec
  have hiso₂ := scope_isolation (u := directScope) hsteps hidle₁
    (fun n hn => absurd hn (by simp [namesakeClaim, Call.finishes]))
    (fun s hs _ => by
      rw [hmade₂ s hs]
      exact Scope.text_eq_iff.mpr ⟨rfl, by decide, rfl⟩) hexec₂
  have hiso₃ := scope_isolation (u := directScope) hsteps hidle₁
    (fun n hn => absurd hn (by simp [namesakeBatch, Call.finishes]))
    (fun s hs hd => by
      rcases hmade₃ s hs with rfl | rfl
      · exact absurd hd (by decide +kernel)
      · exact Scope.text_eq_iff.mpr ⟨rfl, by decide, rfl⟩) hexec₃
  obtain ⟨hchanges, -⟩ := hiso.1 fun s hs => by
    rw [hmade s hs]
    rintro ⟨-, -, h⟩
    exact absurd h (by decide)
  have hthere : ∃ n r, (c.store.slot n).invocation.committed = some r ∧ r.scope = directScope :=
    ⟨0, r, hr, of_decide_eq_true hru⟩
  obtain ⟨-, -, -, hrefused⟩ := hiso₂.2.1 namesake [] [] rfl (by decide) ⟨rfl, by decide, rfl⟩
    hthere
  obtain ⟨-, hsame, hnothing, -⟩ := hiso₃.2.1 namesake [⟨"user", some "<direct>", "other"⟩] []
    (by decide) (by decide) ⟨rfl, by decide, rfl⟩ hthere
  cases outcome with
  | error e => exact absurd ho (by simp [Except.toOption])
  | ok v =>
    simp only [Except.toOption, Option.some.injEq] at ho
    subst ho
    subst hclaim
    exact ⟨c, hsteps, ⟨tr, _, claim, hexec, hexecute, hchanges⟩,
      ⟨tr₂, _, outcome₂, hexec₂, hrefused rfl⟩, tr₃, _, _, hexec₃, hsame, hnothing⟩

end HyChat
