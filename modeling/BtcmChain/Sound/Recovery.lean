import BtcmChain.Chain.Chronicle
import BtcmChain.Chain.Sidelong
import BtcmChain.Lib.Docket
import BtcmChain.Sound.Irreversible
import BtcmChain.Sound.ProposalExecution

set_option autoImplicit false
set_option synthInstance.maxSize 10000000
set_option synthInstance.maxHeartbeats 200000

/-!
# Account recovery

A recovery request is on the docket from the operation that makes or changes it until it is
cancelled, used or a day old; the history of an account's owners keeps each authority for thirty
days after it was replaced; a change of the recovery account waits for thirty days. The state only
holds these objects, so what was done when, and that nothing undid it, is read off the chronicle
(`account_recovery_safe`). Times are 32 bits wide: a change that is asked for within thirty days
of the end of time is due at once.
-/

namespace BtcmChain

/-! ## What an operation is about -/

/-- The operations that make, change, cancel or use the recovery request of an account. -/
def Operation.aboutRequest (name : String) : Operation → Bool
  | .requestAccountRecovery _ account _ => account = name
  | .recoverAccount account _ _ => account = name
  | _ => false

/-- The operations that ask for another recovery account or withdraw that. -/
def Operation.aboutChange (name : String) : Operation → Bool
  | .changeRecoveryAccount account _ => account = name
  | _ => false

/-- Who may ask for the recovery of an account: its recovery account or, if there is none, the
witness with the most votes. -/
def Database.recoveryAgent (s : Database) (name : String) : Option String :=
  (s.accountNamed name).bind fun e =>
    if e.2.recoveryAccount ≠ "" then some e.2.recoveryAccount
    else s.witnessesByVote.head?.map fun w => w.2.owner

/-- The owner authority of the account of this name, if there is one. -/
def Database.ownerOf (s : Database) (name : String) : Option Authority :=
  (s.accountNamed name).map fun e => e.2.owner

/-- Whether asking for another recovery account enters a request: not if there is one already and the
account is to keep the recovery account it has, which only cancels that. -/
def Database.EntersChange (s : Database) (name agent : String) : Prop :=
  (∀ id q, s.changeRecoveryRequests.find? id = some q → q.accountToRecover ≠ name) ∨
    ∃ e, s.accountNamed name = some e ∧ e.2.recoveryAccount ≠ agent

/-! ## The evaluators -/

section Evaluators

variable {s s' : Database}

theorem runs_updateOwnerAuthority {id : AccountId} {o : Authority}
    (h : Runs (updateOwnerAuthority id o) s () s') :
    ∃ a, s.accounts.find? id = some a ∧ s'.recoveries =
      { s.recoveries with
        ownerHistory := s.ownerHistory.create ⟨a.name, a.owner, s.dgpo.time⟩ } := by
  simp only [updateOwnerAuthority, runs_bind_headBlockTime, runs_bind_get, runs_bind_create] at h
  obtain ⟨a, ha, -, h⟩ := h
  obtain ⟨b, p, -, -, rfl⟩ := runs_modifyProfile.mp h
  exact ⟨a, ha, rfl⟩

theorem accountNamed_name {name : String} {e : Nat × AccountObject}
    (h : s.accountNamed name = some e) : s.accounts.find? e.1 = some e.2 ∧ e.2.name = name := by
  obtain ⟨hfind, hname⟩ := ObjectIndex.find?_of_findBy? h
  exact ⟨hfind, of_decide_eq_true hname⟩

/-- An update of the account puts a replaced owner into the history. -/
theorem runs_accountUpdateEvaluator [Externals] {o : AccountUpdateOperation}
    (h : Runs (accountUpdateEvaluator o) s () s') :
    s'.recoveries = s.recoveries ∨ ∃ owner, s.ownerOf o.account = some owner ∧ s'.recoveries =
      { s.recoveries with
        ownerHistory := s.ownerHistory.create ⟨o.account, owner, s.dgpo.time⟩ } := by
  simp only [accountUpdateEvaluator, runs_bind_ofExcept, runs_bind_require, runs_bind_getAccount,
    runs_bind_headBlockTime] at h
  obtain ⟨_, -, -, account, haccount, h⟩ := h
  obtain ⟨⟨⟩, t, howner, h⟩ := runs_bind.mp h
  obtain ⟨b, p, -, -, rfl⟩ := runs_modifyProfile.mp h
  obtain ⟨hfind, hname⟩ := accountNamed_name haccount
  cases ho : o.owner with
  | none =>
      rw [ho] at howner
      obtain ⟨-, rfl⟩ := runs_pure.mp howner
      exact .inl rfl
  | some owner =>
      rw [ho] at howner
      simp only [Option.elim_some, runs_bind_require] at howner
      obtain ⟨a, ha, hviews⟩ := runs_updateOwnerAuthority howner.2
      obtain rfl : a = account.val := Option.some.inj (ha.symm.trans hfind)
      refine .inr ⟨account.val.owner, by rw [Database.ownerOf, haccount]; rfl, ?_⟩
      rw [hname] at hviews
      exact hviews

/-- What a request that may be made does to the docket of requests. -/
theorem runs_putRequest {name : String} {owner : Authority} {now : TimePointSec}
    (h : Runs (do
      let request ← accountRecoveryRequestIndex.findBy? (·.accountToRecover = name)
      request.elim
        (do
          require (!owner.isImpossible) "Cannot recover with an impossible authority"
          require (owner.weightThreshold ≠ 0) "Cannot recover with an open authority"
          let _ ← accountRecoveryRequestIndex.create
            { accountToRecover := name, newOwnerAuthority := owner, expires := now + 86400 }
          pure ())
        fun r =>
          if owner.weightThreshold = 0 then accountRecoveryRequestIndex.remove r.id
          else do
            require (!owner.isImpossible) "Cannot recover with an impossible authority"
            accountRecoveryRequestIndex.modify r.id fun r =>
              .ok { r with newOwnerAuthority := owner, expires := now + 86400 }) s () s') :
    ∃ requests, s'.recoveries = { s.recoveries with requests } ∧
      ((∀ id r, s.recoveryRequests.find? id = some r → r.accountToRecover ≠ name) ∧
          requests = s.recoveryRequests.create ⟨name, owner, now + 86400⟩ ∨
        ∃ id r, s.recoveryRequests.find? id = some r ∧ r.accountToRecover = name ∧
          (requests = s.recoveryRequests.remove id ∨
            requests = s.recoveryRequests.update id fun _ => ⟨name, owner, now + 86400⟩)) := by
  rw [runs_bind_findBy?] at h
  have hread : accountRecoveryRequestIndex.read s = s.recoveryRequests := rfl
  rw [hread] at h
  cases hfound : s.recoveryRequests.findBy? (·.accountToRecover = name) with
  | none =>
      rw [hfound] at h
      simp only [Option.map_none, Option.elim_none, runs_bind_require, runs_bind_create] at h
      obtain ⟨-, -, -, h⟩ := h
      obtain ⟨-, rfl⟩ := runs_pure.mp h
      refine ⟨_, rfl, .inl ⟨fun id r hr => ?_, rfl⟩⟩
      exact of_decide_eq_false (ObjectIndex.findBy?_eq_none.mp hfound id r hr)
  | some e =>
      obtain ⟨hfind, hname⟩ := ObjectIndex.find?_of_findBy? hfound
      have hname : e.2.accountToRecover = name := of_decide_eq_true hname
      rw [hfound] at h
      simp only [Option.map_some, Option.elim_some] at h
      rcases runs_ite.mp h with ⟨-, hr⟩ | ⟨-, hr⟩
      · have hs := Table.runs_remove.mp hr
        subst hs
        exact ⟨_, rfl, .inr ⟨e.1, e.2, hfind, hname, .inl rfl⟩⟩
      · simp only [runs_bind_require] at hr
        obtain ⟨r, r', hr', hchange, hs⟩ := Table.runs_modify.mp hr.2
        have hr' : s.recoveryRequests.find? e.1 = some r := hr'
        obtain rfl : e.2 = r := Option.some.inj (hfind.symm.trans hr')
        subst hs
        cases hchange
        exact ⟨_, rfl, .inr ⟨e.1, e.2, hfind, hname, .inr (by rw [← hname]; rfl)⟩⟩

/-- Only the recovery agent of an account may make a request for it. -/
theorem runs_requestAccountRecoveryEvaluator {agent name : String} {owner : Authority}
    (h : Runs (requestAccountRecoveryEvaluator agent name owner) s () s') :
    s.recoveryAgent name = some agent ∧ ∃ requests,
      s'.recoveries = { s.recoveries with requests } ∧
      ((∀ id r, s.recoveryRequests.find? id = some r → r.accountToRecover ≠ name) ∧
          requests = s.recoveryRequests.create ⟨name, owner, s.dgpo.time + 86400⟩ ∨
        ∃ id r, s.recoveryRequests.find? id = some r ∧ r.accountToRecover = name ∧
          (requests = s.recoveryRequests.remove id ∨
            requests = s.recoveryRequests.update id fun _ => ⟨name, owner, s.dgpo.time + 86400⟩)) := by
  simp only [requestAccountRecoveryEvaluator, runs_bind_getAccount, runs_bind_reads,
    runs_bind_headBlockTime] at h
  obtain ⟨acct, hacct, h⟩ := h
  simp only [Database.recoveryAgent, hacct, Option.bind_some]
  rcases runs_ite.mp h with ⟨hset, hr⟩ | ⟨hset, hr⟩
  · rw [runs_bind_require] at hr
    rw [if_pos hset, of_decide_eq_true hr.1]
    exact ⟨rfl, runs_putRequest hr.2⟩
  · rw [if_neg hset]
    cases htop : s.witnessesByVote.head?.map fun w => w.2.owner with
    | none =>
        rw [htop] at hr
        obtain ⟨⟨⟩, t, hthrow, -⟩ := runs_bind.mp hr
        exact absurd hthrow runs_throw
    | some top =>
        rw [htop, Option.elim_some, runs_bind_require] at hr
        rw [of_decide_eq_true hr.1]
        exact ⟨rfl, runs_putRequest hr.2⟩

/-- A recovery uses the request up and puts the replaced owner into the history. -/
theorem runs_recoverAccountEvaluator {name : String} {owner recent : Authority}
    (h : Runs (recoverAccountEvaluator name owner recent) s () s') :
    ∃ id r old hid hist, s.recoveryRequests.find? id = some r ∧ r.accountToRecover = name ∧
      r.newOwnerAuthority = owner ∧ s.ownerHistory.find? hid = some hist ∧ hist.account = name ∧
      hist.previousOwnerAuthority = recent ∧ s.ownerOf name = some old ∧
      s'.recoveries = { s.recoveries with
        requests := s.recoveryRequests.remove id
        ownerHistory := s.ownerHistory.create ⟨name, old, s.dgpo.time⟩ } := by
  simp only [recoverAccountEvaluator, runs_bind_getAccount, runs_bind_headBlockTime,
    runs_bind_require, runs_bind_getBy, runs_bind_any, runs_bind_remove] at h
  obtain ⟨acct, hacct, -, request, hrequest, hnew, hknown, h⟩ := h
  obtain ⟨⟨⟩, t, hupdate, h⟩ := runs_bind.mp h
  obtain ⟨b, p, -, -, rfl⟩ := runs_modifyProfile.mp h
  obtain ⟨hfind, hname⟩ := accountNamed_name hacct
  obtain ⟨hrfind, hrname⟩ := ObjectIndex.find?_of_findBy? hrequest
  obtain ⟨a, ha, hviews⟩ := runs_updateOwnerAuthority hupdate
  obtain rfl : a = acct.val := Option.some.inj (ha.symm.trans hfind)
  obtain ⟨e, he⟩ := Option.isSome_iff_exists.mp hknown
  obtain ⟨hhist, hmatch⟩ := ObjectIndex.find?_of_findBy? he
  obtain ⟨haccount, hprev⟩ := of_decide_eq_true hmatch
  rw [hname] at hviews
  exact ⟨request.id, request.val, acct.val.owner, e.1, e.2, hrfind, of_decide_eq_true hrname,
    of_decide_eq_true hnew, hhist, haccount, hprev, by rw [Database.ownerOf, hacct]; rfl, hviews⟩

/-- What asking for another recovery account does to the docket of changes. -/
theorem runs_changeRecoveryAccountEvaluator {name agent : String}
    (h : Runs (changeRecoveryAccountEvaluator name agent) s () s') :
    ∃ changes, s'.recoveries = { s.recoveries with changes } ∧
      ((∀ id c, s.changeRecoveryRequests.find? id = some c → c.accountToRecover ≠ name) ∧
          changes = s.changeRecoveryRequests.create ⟨name, agent, s.dgpo.time + 2592000⟩ ∨
        ∃ id c, s.changeRecoveryRequests.find? id = some c ∧ c.accountToRecover = name ∧
          (changes = s.changeRecoveryRequests.remove id ∨
            s.EntersChange name agent ∧ changes = s.changeRecoveryRequests.update id fun _ =>
              ⟨name, agent, s.dgpo.time + 2592000⟩)) := by
  simp only [changeRecoveryAccountEvaluator, runs_bind_getAccount, runs_bind_headBlockTime,
    runs_bind_findBy?] at h
  obtain ⟨_, -, acct, hacct, h⟩ := h
  have hread : changeRecoveryAccountRequestIndex.read s = s.changeRecoveryRequests := rfl
  rw [hread] at h
  cases hfound : s.changeRecoveryRequests.findBy? (·.accountToRecover = name) with
  | none =>
      rw [hfound] at h
      simp only [Option.map_none, Option.elim_none, runs_bind_create] at h
      obtain ⟨-, rfl⟩ := runs_pure.mp h.2
      refine ⟨_, rfl, .inl ⟨fun id c hc => ?_, rfl⟩⟩
      exact of_decide_eq_false (ObjectIndex.findBy?_eq_none.mp hfound id c hc)
  | some e =>
      obtain ⟨hfind, hname⟩ := ObjectIndex.find?_of_findBy? hfound
      have hname : e.2.accountToRecover = name := of_decide_eq_true hname
      rw [hfound] at h
      simp only [Option.map_some, Option.elim_some] at h
      rcases runs_ite.mp h with ⟨hother, hr⟩ | ⟨-, hr⟩
      · obtain ⟨c, c', hc', hchange, hs⟩ := Table.runs_modify.mp hr
        have henters : s.EntersChange name agent := .inr ⟨_, hacct, hother⟩
        have hc' : s.changeRecoveryRequests.find? e.1 = some c := hc'
        obtain rfl : e.2 = c := Option.some.inj (hfind.symm.trans hc')
        subst hs
        cases hchange
        exact ⟨_, rfl, .inr ⟨e.1, e.2, hfind, hname, .inr ⟨henters, by rw [← hname]; rfl⟩⟩⟩
      · have hs := Table.runs_remove.mp hr
        subst hs
        exact ⟨_, rfl, .inr ⟨e.1, e.2, hfind, hname, .inl rfl⟩⟩

end Evaluators

/-! ## What the objects stand for -/

/-- A request stands for the operation of the agent that made or changed it. -/
def AccountRecoveryRequestObject.StandsFor (now : TimePointSec) (r : AccountRecoveryRequestObject)
    (c : Call) : Prop :=
  ∃ agent, c.op = .requestAccountRecovery agent r.accountToRecover r.newOwnerAuthority ∧
    c.state.recoveryAgent r.accountToRecover = some agent ∧
    c.state.dgpo.time ≤ now ∧ r.expires = c.state.dgpo.time + 86400

/-- A change stands for the operation that asked for it, and did not just cancel one. -/
def ChangeRecoveryAccountRequestObject.StandsFor (q : ChangeRecoveryAccountRequestObject)
    (c : Call) : Prop :=
  c.op = .changeRecoveryAccount q.accountToRecover q.recoveryAccount ∧
    c.state.EntersChange q.accountToRecover q.recoveryAccount ∧
    q.effectiveOn = c.state.dgpo.time + 2592000

/-- What must have happened before a recovery: the agent asked for exactly this owner within a day
and nothing was heard of it since, and the recent owner was one within thirty days. -/
structure Endorsed (l : List Call) (s : Database) (name : String) (owner recent : Authority) :
    Prop where
  request : ∃ t agent, Latest (fun c : Call => c.op.aboutRequest name) l
      ⟨t, .requestAccountRecovery agent name owner⟩ ∧
    t.recoveryAgent name = some agent ∧
    t.dgpo.time ≤ s.dgpo.time ∧ s.dgpo.time.toNat ≤ t.dgpo.time.toNat + 86400
  owned : ∃ c ∈ l, c.state.ownerOf name = some recent ∧
    c.state.dgpo.time ≤ s.dgpo.time ∧ s.dgpo.time.toNat ≤ c.state.dgpo.time.toNat + 2592000

/-- The recovery tables against what is on record: each object stands for the latest call about its
account. -/
structure Recoveries.Backed (l : List Call) (v : Recoveries) : Prop where
  requests : Docket (fun name (c : Call) => c.op.aboutRequest name)
    AccountRecoveryRequestObject.accountToRecover
    (AccountRecoveryRequestObject.StandsFor v.now) l v.requests
  changes : Docket (fun name (c : Call) => c.op.aboutChange name)
    ChangeRecoveryAccountRequestObject.accountToRecover
    ChangeRecoveryAccountRequestObject.StandsFor l v.changes
  history : ∀ id h, v.ownerHistory.find? id = some h → h.lastValidTime ≤ v.now ∧
    ∃ c ∈ l, c.state.ownerOf h.account = some h.previousOwnerAuthority ∧
      c.state.dgpo.time = h.lastValidTime
  inOrder : ∀ id id' h h', v.ownerHistory.find? id = some h → v.ownerHistory.find? id' = some h' →
    id ≤ id' → h.lastValidTime ≤ h'.lastValidTime
  recovered : ∀ before t name owner recent after,
    l = before ++ ⟨t, .recoverAccount name owner recent⟩ :: after → Endorsed before t name owner recent

/-- What is left behind at the end of a block: nothing that has run out. -/
structure Recoveries.Fresh (v : Recoveries) : Prop where
  requests : ∀ id r, v.requests.find? id = some r → r.expires - 86400 = v.now ∨ v.now < r.expires
  history : ∀ id h, v.ownerHistory.find? id = some h →
    v.now.toNat ≤ h.lastValidTime.toNat + 2592000

section Backed

variable {l : List Call} {v : Recoveries} {c : Call}

/-- A call is put on record; what it does to the two dockets is known. -/
theorem Recoveries.Backed.note (h : v.Backed l) {requests : ObjectIndex AccountRecoveryRequestObject}
    {changes : ObjectIndex ChangeRecoveryAccountRequestObject}
    (hrequests : Docket (fun name (c : Call) => c.op.aboutRequest name)
      AccountRecoveryRequestObject.accountToRecover
      (AccountRecoveryRequestObject.StandsFor v.now) (l ++ [c]) requests)
    (hchanges : Docket (fun name (c : Call) => c.op.aboutChange name)
      ChangeRecoveryAccountRequestObject.accountToRecover
      ChangeRecoveryAccountRequestObject.StandsFor (l ++ [c]) changes)
    (hrecovered : ∀ name owner recent, c.op = .recoverAccount name owner recent →
      Endorsed l c.state name owner recent) :
    Recoveries.Backed (l ++ [c]) { v with requests, changes } where
  requests := hrequests
  changes := hchanges
  history id e he := by
    obtain ⟨hle, d, hd, howner, htime⟩ := h.history id e he
    exact ⟨hle, d, List.mem_append_left _ hd, howner, htime⟩
  inOrder := h.inOrder
  recovered before t name owner recent after hl := by
    rcases snoc_eq_append_cons hl with ⟨-, rfl, rfl⟩ | ⟨rest, hrest⟩
    · exact hrecovered name owner recent rfl
    · exact h.recovered before t name owner recent rest hrest

/-- A call that has nothing to do with recovery leaves the tables backed by the record. -/
theorem Recoveries.Backed.pass (h : v.Backed l) (hrequest : ∀ name, c.op.aboutRequest name = false)
    (hchange : ∀ name, c.op.aboutChange name = false) : v.Backed (l ++ [c]) := by
  refine h.note (h.requests.pass fun _ _ _ => hrequest _) (h.changes.pass fun _ _ _ => hchange _) ?_
  intro name owner recent hop
  have habout := hrequest name
  rw [hop] at habout
  simp [Operation.aboutRequest] at habout

/-- An owner authority that is replaced goes into the history, with the time until which it was
valid. -/
theorem Recoveries.Backed.bury (h : v.Backed l) (hc : c ∈ l) {name : String} {old : Authority}
    (howner : c.state.ownerOf name = some old) (htime : c.state.dgpo.time = v.now) :
    Recoveries.Backed l { v with ownerHistory := v.ownerHistory.create ⟨name, old, v.now⟩ } where
  requests := h.requests
  changes := h.changes
  history id e he := by
    have he : (v.ownerHistory.create ⟨name, old, v.now⟩).find? id = some e := he
    rw [ObjectIndex.find?_create] at he
    split at he
    · obtain rfl := Option.some.inj he
      exact ⟨UInt32.le_refl _, c, hc, howner, htime⟩
    · exact h.history id e he
  inOrder id id' e e' he he' hle := by
    have he : (v.ownerHistory.create ⟨name, old, v.now⟩).find? id = some e := he
    have he' : (v.ownerHistory.create ⟨name, old, v.now⟩).find? id' = some e' := he'
    rw [ObjectIndex.find?_create] at he he'
    split at he'
    case isTrue hid' =>
      obtain rfl := Option.some.inj he'
      split at he
      case isTrue =>
        obtain rfl := Option.some.inj he
        exact UInt32.le_refl _
      case isFalse => exact (h.history id e he).1
    case isFalse hid' =>
      split at he
      case isTrue hid =>
        -- the new number is beyond all that are in use
        have hbound := v.ownerHistory.bound id' e' he'
        omega
      case isFalse => exact h.inOrder id id' e e' he he' hle
  recovered := h.recovered

end Backed

/-! ## Evaluator calls -/

section Calls

variable {s s' : Database} {l : List Call}

instance : Shareless (Fixing Database.recoveries) where
  refl := Preorder₂.refl
  trans := Preorder₂.trans
  elsewhere _ hv := hv
  account _ _ _ _ := rfl
  create _ _ _ _ _ _ _ := rfl
  shares _ _ _ := rfl

instance (priority := low) (id : AccountId) (change : AccountProfile → Except Exn AccountProfile) :
    Respects (Fixing Database.recoveries) (modifyProfile id change) :=
  ⟨fun hr => by
    obtain ⟨_, _, -, -, rfl⟩ := runs_modifyProfile.mp hr
    rfl⟩

instance (a b : String) : Respects (Fixing Database.recoveries) (friendshipEvaluator a b) := by
  unfold friendshipEvaluator addSecondLevel befriend befriendBack
  infer_instance

instance (a b : String) : Respects (Fixing Database.recoveries) (unfriendEvaluator a b) := by
  unfold unfriendEvaluator rebuildFriends rebuildSecondLevel
  infer_instance

/-- Whether an operation is a `recover_account_operation`, which alone restores an owner authority.
-/
def Operation.isRecoverAccount : Operation → Bool
  | .recoverAccount .. => true
  | _ => false

/-- Operations that have nothing to do with recovery leave its tables alone. -/
theorem evaluate_recoveries [Externals] {push : Nat → DbM Unit} {op : Operation}
    (hplain : op.isProposalUpdate = false) (hrecovery : op.touchesRecovery = false)
    (h : Runs (evaluate push op) s () s') : s'.recoveries = s.recoveries := by
  cases hties : op.touchesTies with
  | false => exact (respects_evaluate (R := Fixing Database.recoveries) hplain hties hrecovery).rel h
  | true =>
      cases op <;> first | exact (Bool.false_ne_true hties).elim | skip
      case friendship a b =>
        have h : Runs (friendshipEvaluator a b) s () s' := h
        exact Respects.rel (R := Fixing Database.recoveries) h
      case unfriend a b =>
        have h : Runs (unfriendEvaluator a b) s () s' := h
        exact Respects.rel (R := Fixing Database.recoveries) h

/-- What the tables say of a recovery that is used before it has run out. -/
theorem Recoveries.Backed.endorsed (h : s.recoveries.Backed l) (hfresh : s.recoveries.Fresh)
    {id hid : Nat} {r : AccountRecoveryRequestObject} {e : OwnerAuthorityHistoryObject} {name : String}
    (hr : s.recoveryRequests.find? id = some r) (hname : r.accountToRecover = name)
    (he : s.ownerHistory.find? hid = some e) (haccount : e.account = name) :
    Endorsed l s name r.newOwnerAuthority e.previousOwnerAuthority where
  request := by
    obtain ⟨c, hlatest, agent, hop, hagent, hle, hexpires⟩ := h.requests.latest id r hr
    subst hname
    refine ⟨c.state, agent, ?_, hagent, hle, ?_⟩
    · rw [← hop]
      exact hlatest
    · rcases hfresh.requests id r hr with hnow | hlt
      · have hnow : c.state.dgpo.time = s.dgpo.time := by
          rw [hexpires, UInt32.add_sub_cancel] at hnow
          exact hnow
        rw [hnow]
        omega
      · have hlt : s.dgpo.time.toNat < r.expires.toNat := UInt32.lt_iff_toNat_lt.mp hlt
        rw [hexpires, UInt32.toNat_add] at hlt
        have hmod := Nat.mod_le (c.state.dgpo.time.toNat + UInt32.toNat 86400) (2 ^ 32)
        have hday : UInt32.toNat 86400 = 86400 := rfl
        omega
  owned := by
    obtain ⟨hle, c, hc, howner, htime⟩ := h.history hid e he
    have hperiod := hfresh.history hid e he
    refine ⟨c, hc, haccount ▸ howner, ?_, ?_⟩
    · rw [htime]
      exact hle
    · rw [htime]
      exact hperiod

/-- **One evaluator call** keeps the tables backed by the record. -/
theorem evaluate_backed [Externals] {push : Nat → DbM Unit} {op : Operation} (hplain : op.isProposalUpdate = false)
    (h : Runs (evaluate push op) s () s') (hb : s.recoveries.Backed l)
    (hf : op.isRecoverAccount = true → s.recoveries.Fresh) :
    s'.recoveries.Backed (l ++ [⟨s, op⟩]) := by
  cases hrecovery : op.touchesRecovery with
  | false =>
      rw [evaluate_recoveries hplain hrecovery h]
      refine hb.pass (fun name => ?_) fun name => ?_
      all_goals cases op <;> first | rfl | exact (Bool.false_ne_true hrecovery.symm).elim
  | true =>
      cases op <;> first | exact (Bool.false_ne_true hrecovery).elim | skip
      case accountUpdate o =>
        have h : Runs (accountUpdateEvaluator o) s () s' := h
        have hpass : s.recoveries.Backed (l ++ [⟨s, .accountUpdate o⟩]) :=
          hb.pass (fun _ => rfl) fun _ => rfl
        rcases runs_accountUpdateEvaluator h with hv | ⟨old, howner, hv⟩
        · rw [hv]
          exact hpass
        · rw [hv]
          exact hpass.bury (List.mem_append_right l List.mem_cons_self) howner rfl
      case requestAccountRecovery agent name owner =>
        have h : Runs (requestAccountRecoveryEvaluator agent name owner) s () s' := h
        obtain ⟨hagent, requests, hv, hrequests⟩ := runs_requestAccountRecoveryEvaluator h
        have honly : ∀ name', (fun name (c : Call) => c.op.aboutRequest name) name'
            ⟨s, .requestAccountRecovery agent name owner⟩ = true → name' = name :=
          fun _ ha => (of_decide_eq_true ha).symm
        have hstands : AccountRecoveryRequestObject.StandsFor s.dgpo.time
            ⟨name, owner, s.dgpo.time + 86400⟩ ⟨s, .requestAccountRecovery agent name owner⟩ :=
          ⟨agent, rfl, hagent, UInt32.le_refl _, rfl⟩
        rw [hv]
        refine hb.note ?_ (hb.changes.pass fun _ _ _ => rfl) (fun _ _ _ ho => by cases ho)
        rcases hrequests with ⟨hnone, rfl⟩ | ⟨id, r, hr, hname, rfl | rfl⟩
        · exact hb.requests.create honly rfl hstands hnone
        · exact hb.requests.drop honly hr hname
        · exact hb.requests.replace honly hr hname rfl hstands
      case changeRecoveryAccount name agent =>
        have h : Runs (changeRecoveryAccountEvaluator name agent) s () s' := h
        obtain ⟨changes, hv, hchanges⟩ := runs_changeRecoveryAccountEvaluator h
        have honly : ∀ name', (fun name (c : Call) => c.op.aboutChange name) name'
            ⟨s, .changeRecoveryAccount name agent⟩ = true → name' = name :=
          fun _ ha => (of_decide_eq_true ha).symm
        have hstands (henters : s.EntersChange name agent) :
            ChangeRecoveryAccountRequestObject.StandsFor ⟨name, agent, s.dgpo.time + 2592000⟩
              ⟨s, .changeRecoveryAccount name agent⟩ := ⟨rfl, henters, rfl⟩
        rw [hv]
        refine hb.note (hb.requests.pass fun _ _ _ => rfl) ?_ (fun _ _ _ ho => by cases ho)
        rcases hchanges with ⟨hnone, rfl⟩ | ⟨id, q, hq, hname, rfl | ⟨henters, rfl⟩⟩
        · exact hb.changes.create honly rfl (hstands (.inl hnone)) hnone
        · exact hb.changes.drop honly hq hname
        · exact hb.changes.replace honly hq hname rfl (hstands henters)
      case recoverAccount name owner recent =>
        have h : Runs (recoverAccountEvaluator name owner recent) s () s' := h
        obtain ⟨id, r, old, hid, e, hr, hname, hnew, he, haccount, hprev, howner, hv⟩ :=
          runs_recoverAccountEvaluator h
        have honly : ∀ name', (fun name (c : Call) => c.op.aboutRequest name) name'
            ⟨s, .recoverAccount name owner recent⟩ = true → name' = name :=
          fun _ ha => (of_decide_eq_true ha).symm
        have hendorsed := hb.endorsed (hf rfl) hr hname he haccount
        rw [hnew, hprev] at hendorsed
        have hnoted := hb.note (c := ⟨s, .recoverAccount name owner recent⟩)
          (hb.requests.drop honly hr hname) (hb.changes.pass fun _ _ _ => rfl)
          fun _ _ _ ho => by
            cases ho
            exact hendorsed
        rw [hv]
        exact hnoted.bury (List.mem_append_right l List.mem_cons_self) howner rfl

/-- A replaced owner is in the history for thirty days. -/
theorem Recoveries.Fresh.bury {v : Recoveries} (h : v.Fresh) (name : String) (old : Authority) :
    Recoveries.Fresh { v with ownerHistory := v.ownerHistory.create ⟨name, old, v.now⟩ } where
  requests := h.requests
  history id e he := by
    have he : (v.ownerHistory.create ⟨name, old, v.now⟩).find? id = some e := he
    rw [ObjectIndex.find?_create] at he
    split at he
    · obtain rfl := Option.some.inj he
      exact Nat.le_add_right _ _
    · exact h.history id e he

/-- Other requests than those that were there have just been made. -/
theorem Recoveries.Fresh.of_requests {v : Recoveries} (h : v.Fresh)
    {requests : ObjectIndex AccountRecoveryRequestObject}
    (hnew : ∀ id r, requests.find? id = some r →
      v.requests.find? id = some r ∨ r.expires = v.now + 86400) :
    Recoveries.Fresh { v with requests } where
  requests id r hr := by
    rcases hnew id r hr with hr | hexpires
    · exact h.requests id r hr
    · rw [hexpires, UInt32.add_sub_cancel]
      exact .inl rfl
  history := h.history

/-- No evaluator call lets a request, a change or a past owner run out of its time. -/
theorem evaluate_fresh [Externals] {push : Nat → DbM Unit} {op : Operation}
    (hplain : op.isProposalUpdate = false) (h : Runs (evaluate push op) s () s')
    (hf : s.recoveries.Fresh) : s'.recoveries.Fresh := by
  cases hrecovery : op.touchesRecovery with
  | false =>
      rw [evaluate_recoveries hplain hrecovery h]
      exact hf
  | true =>
      cases op <;> first | exact (Bool.false_ne_true hrecovery).elim | skip
      case accountUpdate o =>
        have h : Runs (accountUpdateEvaluator o) s () s' := h
        rcases runs_accountUpdateEvaluator h with hv | ⟨old, -, hv⟩
        · rw [hv]
          exact hf
        · rw [hv]
          exact hf.bury _ _
      case requestAccountRecovery agent name owner =>
        have h : Runs (requestAccountRecoveryEvaluator agent name owner) s () s' := h
        obtain ⟨-, requests, hv, hrequests⟩ := runs_requestAccountRecoveryEvaluator h
        rw [hv]
        refine hf.of_requests fun id r hr => ?_
        rcases hrequests with ⟨-, rfl⟩ | ⟨id', r', hr', -, rfl | rfl⟩
        · rw [ObjectIndex.find?_create] at hr
          split at hr
          · obtain rfl := Option.some.inj hr
            exact .inr rfl
          · exact .inl hr
        · rw [ObjectIndex.find?_remove] at hr
          split at hr
          · cases hr
          · exact .inl hr
        · rw [ObjectIndex.find?_update, hr'] at hr
          split at hr
          · obtain rfl := Option.some.inj hr
            exact .inr rfl
          · exact .inl hr
      case changeRecoveryAccount name agent =>
        have h : Runs (changeRecoveryAccountEvaluator name agent) s () s' := h
        obtain ⟨changes, hv, -⟩ := runs_changeRecoveryAccountEvaluator h
        rw [hv]
        exact ⟨hf.requests, hf.history⟩
      case recoverAccount name owner recent =>
        have h : Runs (recoverAccountEvaluator name owner recent) s () s' := h
        obtain ⟨id, r, old, hid, e, -, -, -, -, -, -, -, hv⟩ := runs_recoverAccountEvaluator h
        have hremoved : Recoveries.Fresh
            { s.recoveries with requests := s.recoveryRequests.remove id } :=
          hf.of_requests fun id' r' hr' => by
            rw [ObjectIndex.find?_remove] at hr'
            split at hr'
            · cases hr'
            · exact .inl hr'
        rw [hv]
        exact hremoved.bury name old

/-! ## Whole operations -/

/-- What a piece of a run does to the tables and the record. If `quiet` holds nothing has run out;
else nothing may be recovered. -/
def Carries (quiet : Prop) (s : Database) (calls : List Call) (s' : Database) : Prop :=
  (∀ c ∈ calls, quiet ∨ c.op.isRecoverAccount = false) →
    ∀ l, s.recoveries.Backed l → (quiet → s.recoveries.Fresh) →
      s'.recoveries.Backed (l ++ calls) ∧ (quiet → s'.recoveries.Fresh)

theorem traces_carries (quiet : Prop) : Traces (Carries quiet) where
  pending s x _ l hb hf := ⟨by rwa [List.append_nil], hf⟩
  append h h' hcalls l hb hf := by
    obtain ⟨hb, hf⟩ := h (fun c hc => hcalls c (List.mem_append_left _ hc)) l hb hf
    obtain ⟨hb, hf⟩ := h' (fun c hc => hcalls c (List.mem_append_right _ hc)) _ hb hf
    rw [List.append_assoc] at hb
    exact ⟨hb, hf⟩
  update {s u o calls} h hcalls l hb hf := by
    have hnoted : s.recoveries.Backed (l ++ [⟨s, .proposalUpdate o⟩]) :=
      hb.pass (fun _ => rfl) fun _ => rfl
    obtain ⟨hb, hf⟩ := h (fun c hc => hcalls c (List.mem_cons_of_mem _ hc)) _ hnoted hf
    rw [List.append_assoc] at hb
    exact ⟨hb, hf⟩

theorem evaluate_carries [Externals] (quiet : Prop) {push : Nat → DbM Unit} {op : Operation}
    (hplain : op.isProposalUpdate = false) (h : Runs (evaluate push op) s () s') :
    Carries quiet s [⟨s, op⟩] s' := by
  intro hcalls l hb hf
  refine ⟨evaluate_backed hplain h hb fun hrecover => ?_, fun hquiet =>
    evaluate_fresh hplain h (hf hquiet)⟩
  rcases hcalls _ List.mem_cons_self with hquiet | hnot
  · exact hf hquiet
  · exact absurd hrecover (by rw [hnot]; exact Bool.false_ne_true)

end Calls

/-! ## Proposals -/

section Proposals

variable [Externals] {s s' : Database}

/-- No proposed operation requires an authority of its own, as a recovery does. -/
def ProposalsOrdinary (s : Database) : Prop :=
  ∀ id p, s.proposals.find? id = some p → ∀ op ∈ p.proposedOps, op.requiredOther = []

omit [Externals] in
theorem ProposalsOrdinary.shrinks (h : ProposalsOrdinary s) (hs : Shrinks s s') :
    ProposalsOrdinary s' := by
  intro id p' hp' op hop
  obtain ⟨p, hp, hops⟩ := hs id p' hp'
  exact h id p hp op (hops ▸ hop)

theorem proposalCreate_ordinary {ops : List Operation} {time : TimePointSec} {review : Option UInt32}
    (hs : ProposalsOrdinary s) (h : Runs (proposalCreateEvaluator ops time review) s () s') :
    ProposalsOrdinary s' := by
  simp only [proposalCreateEvaluator, runs_bind_require, runs_bind_headBlockTime, runs_bind_reads,
    runs_bind_ofExcept, runs_bind_create, runs_pure] at h
  obtain ⟨-, -, -, -, -, ⟨⟩, -, -, req, hreq, hother, approvers, -, -, -, rfl⟩ := h
  have hreq : req.other = ops.flatMap Operation.requiredOther := by
    simp only [requiredOf, except_bind_ok, except_pure_ok] at hreq
    obtain ⟨-, -, rfl⟩ := hreq
    rfl
  rw [hreq, List.isEmpty_iff] at hother
  intro id p hp op hop
  have hp : (s.proposals.create _).find? id = some p := hp
  rw [ObjectIndex.find?_create] at hp
  split at hp
  case isTrue =>
    obtain rfl := Option.some.inj hp
    exact List.flatMap_eq_nil_iff.mp hother op hop
  case isFalse => exact hs id p hp op hop

theorem Reachable.proposalsOrdinary (h : Reachable s) : ProposalsOrdinary s :=
  h.stored (fun ho hs => ho.shrinks hs) proposalCreate_ordinary fun he id p hp => by
    rw [he] at hp
    cases hp

omit [Externals] in
/-- The calls behind a proposal are ordinary if those of its operations are. -/
theorem mem_callsAll {apply : Operation → DbM Unit} {callsOf : Operation → Database → List Call}
    {Q : Database → Prop} {P : Call → Prop}
    (happly : ∀ op s s', op.isProposalCreate = false → Q s → Runs (apply op) s () s' → Q s')
    (hcalls : ∀ op s, op.isProposalCreate = false → op.requiredOther = [] → Q s →
      ∀ c ∈ callsOf op s, P c) {ops : List Operation}
    (hops : ∀ op ∈ ops, op.isProposalCreate = false ∧ op.requiredOther = []) (hs : Q s) :
    ∀ c ∈ callsAll apply callsOf ops s, P c := by
  induction ops generalizing s with
  | nil => simp [callsAll]
  | cons op ops ih =>
      obtain ⟨hflat, hother⟩ := hops op List.mem_cons_self
      intro c hc
      rcases List.mem_append.mp hc with hc | hc
      · exact hcalls op s hflat hother hs c hc
      · cases hr : apply op s with
        | error e =>
            rw [hr] at hc
            cases hc
        | ok r =>
            rw [hr] at hc
            exact ih (fun o ho => hops o (List.mem_cons_of_mem op ho)) (happly op s r.2 hflat hs hr) c hc

theorem mem_pushedCalls {n : ℕ} (ih : ∀ (op : Operation) (s : Database), ProposalsValid s →
      ProposalsOrdinary s → ∀ c ∈ calls n op s, c.op = op ∨ c.op.requiredOther = [])
    {id : ℕ} (hv : ProposalsValid s) (ho : ProposalsOrdinary s) :
    ∀ c ∈ pushedCalls (applyOperation n) (calls n) id s, c.op.requiredOther = [] := by
  intro c hc
  unfold pushedCalls at hc
  split at hc
  case isFalse => cases hc
  case isTrue =>
    cases hp : s.proposals.find? id with
    | none =>
        rw [hp] at hc
        cases hc
    | some p =>
        rw [hp, Option.elim_some] at hc
        refine mem_callsAll (P := fun c => c.op.requiredOther = []) (Q := fun t => ProposalsValid t ∧ ProposalsOrdinary t)
          (fun op t t' hflat ht hr => ?_) (fun op t _ hother ht c hc => ?_)
          (fun op hop => ⟨(hv id p hp op hop).2, ho id p hp op hop⟩) ⟨hv, ho⟩ c hc
        · have hshrinks := applyOperation_shrinks n hflat ht.1 hr
          exact ⟨ht.1.shrinks hshrinks, ht.2.shrinks hshrinks⟩
        · rcases ih op t ht.1 ht.2 c hc with hself | hordinary
          · rw [hself, hother]
          · exact hordinary

/-- Apart from the operation itself, an operation only evaluates proposed ones. -/
theorem mem_calls (n : ℕ) {op : Operation} (hv : ProposalsValid s) (ho : ProposalsOrdinary s) :
    ∀ c ∈ calls n op s, c.op = op ∨ c.op.requiredOther = [] := by
  induction n generalizing op s with
  | zero =>
      intro c hc
      rw [List.mem_singleton.mp hc]
      exact .inl rfl
  | succ n ih =>
      intro c hc
      rcases List.mem_cons.mp hc with rfl | hc
      · exact .inl rfl
      · cases hop : op.isProposalUpdate with
        | false => cases op <;> first | cases hc | cases hop
        | true =>
            obtain ⟨o, rfl⟩ := Operation.eq_proposalUpdate hop
            right
            have hc : c ∈ updateCalls (pushedCalls (applyOperation n) (calls n)) o s := hc
            unfold updateCalls at hc
            cases hp : s.proposals.find? o.proposal with
            | none =>
                rw [hp] at hc
                cases hc
            | some p =>
                rw [hp, Option.elim_some] at hc
                split at hc
                · exact mem_pushedCalls (fun op s hv ho => ih hv ho) (hv.amend hp)
                    (ho.shrinks (shrinks_amend hp)) c hc
                · cases hc

/-- No proposal that expires recovers an account, since its operations are ordinary ones. -/
theorem mem_expireCalls {id : ℕ} (hv : ProposalsValid s) (ho : ProposalsOrdinary s) :
    ∀ c ∈ (Move.expire id).calls s, c.op.isRecoverAccount = false := by
  intro c hc
  simp only [Move.calls] at hc
  cases hp : s.proposals.find? id with
  | none =>
      rw [hp] at hc
      cases hc
  | some p =>
      rw [hp, Option.elim_some] at hc
      split at hc
      case isFalse => cases hc
      case isTrue =>
        have hother := mem_pushedCalls (fun op s hv ho => mem_calls _ hv ho) hv ho c hc
        cases hop : c.op <;> first | rfl | skip
        rw [hop] at hother
        cases hother

end Proposals

/-! ## The end of a block -/

section Processing

variable {l : List Call} {v : Recoveries} {s s' : Database}

theorem Recoveries.Backed.removeRequest (h : v.Backed l) (id : Nat) :
    Recoveries.Backed l { v with requests := v.requests.remove id } :=
  { h with requests := h.requests.remove id }

theorem Recoveries.Backed.removeChange (h : v.Backed l) (id : Nat) :
    Recoveries.Backed l { v with changes := v.changes.remove id } :=
  { h with changes := h.changes.remove id }

theorem Recoveries.Backed.removeHistory (h : v.Backed l) (id : Nat) :
    Recoveries.Backed l { v with ownerHistory := v.ownerHistory.remove id } := by
  have hold : ∀ id' e, (v.ownerHistory.remove id).find? id' = some e →
      v.ownerHistory.find? id' = some e := by
    intro id' e he
    rw [ObjectIndex.find?_remove] at he
    split at he
    · cases he
    · exact he
  exact { h with
    history := fun id' e he => h.history id' e (hold id' e he)
    inOrder := fun id₁ id₂ e₁ e₂ h₁ h₂ => h.inOrder id₁ id₂ e₁ e₂ (hold id₁ e₁ h₁) (hold id₂ e₂ h₂) }

/-- The first object by number is the one that a constant key finds first. -/
theorem firstBy_const {α : Type} {ix : ObjectIndex α} {id : Nat} {a : α}
    (h : ix.find? id = some a) :
    ∃ e, firstBy (fun _ => 0) ix.entries = some e ∧ ix.find? e.id = some e.val ∧ e.id ≤ id := by
  have hmem : (id, a) ∈ ix.objs.entries := FlatMap.mem_entries_iff.mpr h
  cases hentries : ix.objs.entries with
  | nil =>
      rw [hentries] at hmem
      cases hmem
  | cons x rest =>
      have hsorted := ix.objs.sorted
      rw [hentries] at hsorted hmem
      have hfirst : firstBy (fun _ : α => 0) ix.entries = some ⟨x.1, x.2⟩ := by
        show firstBy (fun _ : α => 0) ix.objs.entries = some ⟨x.1, x.2⟩
        rw [hentries, firstBy]
        cases firstBy (fun _ : α => 0) rest <;> rfl
      refine ⟨⟨x.1, x.2⟩, hfirst, ObjectIndex.mem_entries_iff.mp (mem_of_firstBy hfirst), ?_⟩
      rcases List.mem_cons.mp hmem with rfl | hmem
      · exact Nat.le_refl _
      · exact Nat.le_of_lt ((List.pairwise_cons.mp hsorted).1 _ hmem)

/-- The history is cleared from its oldest entry on, and later entries are not older. -/
theorem Recoveries.Backed.history_fresh (h : v.Backed l)
    (hstop : (firstBy (fun _ => 0) v.ownerHistory.entries).filter
      (fun e : Entry OwnerAuthorityHistoryObject => e.val.lastValidTime + 2592000 < v.now) = none) :
    ∀ id e, v.ownerHistory.find? id = some e →
      v.now.toNat ≤ e.lastValidTime.toNat + 2592000 := by
  intro id e he
  obtain ⟨first, hfirst, hfound, hle⟩ := firstBy_const he
  rw [hfirst] at hstop
  have hkept : ¬ first.val.lastValidTime + 2592000 < v.now := by simpa [Option.filter] using hstop
  have horder := h.inOrder first.id id first.val e hfound he hle
  rw [UInt32.not_lt, UInt32.le_iff_toNat_le, UInt32.toNat_add] at hkept
  rw [UInt32.le_iff_toNat_le] at horder
  have hmod := Nat.mod_le (first.val.lastValidTime.toNat + UInt32.toNat 2592000) (2 ^ 32)
  have hmonth : UInt32.toNat 2592000 = 2592000 := rfl
  omega

/-- What the processing of recoveries does at one head time. -/
structure Processed (l : List Call) (s t : Database) : Prop where
  time : t.dgpo.time = s.dgpo.time
  backed : t.recoveries.Backed l
  changes : ∀ id q, t.changeRecoveryRequests.find? id = some q →
    s.changeRecoveryRequests.find? id = some q
  accounts : ∀ id a', t.accounts.find? id = some a' → ∃ a, s.accounts.find? id = some a ∧
    a'.name = a.name ∧ (a'.recoveryAccount = a.recoveryAccount ∨
      ∃ qid q, s.changeRecoveryRequests.find? qid = some q ∧ q.effectiveOn ≤ s.dgpo.time ∧
        q.accountToRecover = a.name ∧ q.recoveryAccount = a'.recoveryAccount)

/-- A change that is due is made and taken off the docket. -/
theorem Processed.change {t u : Database} (h : Processed l s t)
    {c : Entry ChangeRecoveryAccountRequestObject}
    (hc : t.changeRecoveryRequests.find? c.id = some c.val) (hdue : c.val.effectiveOn ≤ s.dgpo.time)
    (hr : Runs (do
      let acct ← getAccount c.val.accountToRecover
      modifyProfile acct.id fun p => .ok { p with recoveryAccount := c.val.recoveryAccount }
      changeRecoveryAccountRequestIndex.remove c.id) t () u) :
    Processed l s u ∧ u.recoveryRequests = t.recoveryRequests ∧ u.ownerHistory = t.ownerHistory := by
  rw [runs_bind_getAccount] at hr
  obtain ⟨acct, hacct, hr⟩ := hr
  obtain ⟨⟨⟩, w, hput, hr⟩ := runs_bind.mp hr
  obtain ⟨b, p, hb, hp, rfl⟩ := runs_modifyProfile.mp hput
  obtain rfl := Except.ok.inj hp
  obtain rfl := Table.runs_remove.mp hr
  obtain ⟨hfind, hname⟩ := accountNamed_name hacct
  obtain rfl : b = acct.val := Option.some.inj (hb.symm.trans hfind)
  refine ⟨⟨h.time, h.backed.removeChange c.id, fun id q hq => ?_, fun id a' ha' => ?_⟩, rfl, rfl⟩
  · have hq : (t.changeRecoveryRequests.remove c.id).find? id = some q := hq
    rw [ObjectIndex.find?_remove] at hq
    split at hq
    · cases hq
    · exact h.changes id q hq
  · have ha' : (t.accounts.update acct.id fun _ => _).find? id = some a' := ha'
    rw [ObjectIndex.find?_update, hb] at ha'
    split at ha'
    case isTrue hid =>
      obtain rfl := Option.some.inj ha'
      obtain ⟨a, ha, hsame, -⟩ := h.accounts acct.id acct.val hfind
      refine ⟨a, hid ▸ ha, hsame, .inr ⟨c.id, c.val, h.changes c.id c.val hc, hdue, ?_, rfl⟩⟩
      rw [← hsame, hname]
    case isFalse => exact h.accounts id a' ha'

/-- **The processing at the end of a block**: the tables stay backed, what is left has not run out,
and only a change that is due changes a recovery account. -/
theorem accountRecoveryProcessing_processed (hb : s.recoveries.Backed l)
    (h : Runs accountRecoveryProcessing s () s') :
    Processed l s s' ∧ s'.recoveries.Fresh := by
  simp only [accountRecoveryProcessing, runs_bind_headBlockTime, runs_bind_reads] at h
  obtain ⟨⟨⟩, t1, h1, h⟩ := runs_bind.mp h
  rw [runs_bind_reads] at h
  obtain ⟨⟨⟩, t2, h2, h⟩ := runs_bind.mp h
  rw [runs_bind_reads] at h
  have hstart : Processed l s s :=
    ⟨rfl, hb, fun _ _ hq => hq, fun _ a ha => ⟨a, ha, rfl, .inl rfl⟩⟩
  have hfirst : Processed l s t1 :=
    due_induction (P := fun _ t => Processed l s t) (fun _ _ r t u ht _ _ hr => by
      obtain rfl := Table.runs_remove.mp hr
      exact ⟨ht.time, ht.backed.removeRequest r.id, ht.changes, ht.accounts⟩) h1 hstart
  -- the first loop ends when no request is due, the second when no old authority has expired
  have hkept : ∀ id r, t1.recoveryRequests.find? id = some r → s.dgpo.time < r.expires := by
    intro id r hr
    have hdue := due_exhausted (t := accountRecoveryRequestIndex) (fun {a b} hle hb => ?_) h1 hr
    · exact UInt32.not_le.mp (of_decide_eq_false hdue)
    · exact decide_eq_true (UInt32.le_trans (UInt32.le_iff_toNat_le.mpr hle) (of_decide_eq_true hb))
  have hsecond : Processed l s t2 ∧ t2.recoveryRequests = t1.recoveryRequests :=
    due_induction (P := fun _ t => Processed l s t ∧ t.recoveryRequests = t1.recoveryRequests)
      (fun _ _ e t u ht _ _ hr => by
        obtain rfl := Table.runs_remove.mp hr
        exact ⟨⟨ht.1.time, ht.1.backed.removeHistory e.id, ht.1.changes, ht.1.accounts⟩, ht.2⟩)
      h2 ⟨hfirst, rfl⟩
  have hhistory : ∀ id e, t2.ownerHistory.find? id = some e →
      s.dgpo.time.toNat ≤ e.lastValidTime.toNat + 2592000 := by
    have hstop : (firstBy (fun _ => 0) t2.ownerHistory.entries).filter
        (fun e : Entry OwnerAuthorityHistoryObject => e.val.lastValidTime + 2592000 < s.dgpo.time) =
        none :=
      drain_trace (R := fun _ _ _ _ (u : Database) => (firstBy (fun _ => 0) u.ownerHistory.entries).filter
        (fun e : Entry OwnerAuthorityHistoryObject => e.val.lastValidTime + 2592000 < s.dgpo.time) =
        none) (fun _ _ _ hstop => by
          obtain ⟨hnone, rfl⟩ := runs_reads.mp hstop
          exact hnone.symm) (fun _ _ _ _ _ _ _ _ _ _ _ h => h) h2
    -- the loop looks at the oldest entry only, and the others are younger
    have hfresh := hsecond.1.backed.history_fresh
    rw [show t2.recoveries.now = s.dgpo.time from hsecond.1.time] at hfresh
    exact hfresh hstop
  have hthird : Processed l s s' ∧ s'.recoveryRequests = t1.recoveryRequests ∧
      s'.ownerHistory = t2.ownerHistory :=
    due_induction (P := fun _ t => Processed l s t ∧ t.recoveryRequests = t1.recoveryRequests ∧
      t.ownerHistory = t2.ownerHistory)
      (fun _ _ c t u ht hc hdue hr => by
        obtain ⟨hp, hreq, hhist⟩ := ht.1.change hc (of_decide_eq_true hdue) hr
        exact ⟨hp, hreq.trans ht.2.1, hhist.trans ht.2.2⟩)
      h ⟨hsecond.1, hsecond.2, rfl⟩
  refine ⟨hthird.1, ⟨fun id r hr => .inr ?_, fun id e he => ?_⟩⟩
  · have hr : s'.recoveryRequests.find? id = some r := hr
    rw [hthird.2.1] at hr
    have hnow : s'.recoveries.now = s.dgpo.time := hthird.1.time
    rw [hnow]
    exact hkept id r hr
  · have he : s'.ownerHistory.find? id = some e := he
    rw [hthird.2.2] at he
    have hnow : s'.recoveries.now = s.dgpo.time := hthird.1.time
    rw [hnow]
    exact hhistory id e he

end Processing

/-! ## Who changes a recovery account -/

section Retaining

/-- Every account keeps its name and its recovery account. -/
def Retaining (s t : Database) : Prop :=
  ∀ id a, s.accounts.find? id = some a →
    ∃ a', t.accounts.find? id = some a' ∧ a'.name = a.name ∧ a'.recoveryAccount = a.recoveryAccount

instance : Preorder₂ Retaining where
  refl _ _ a ha := ⟨a, ha, rfl, rfl⟩
  trans h h' id a ha := by
    obtain ⟨b, hb, hname, hagent⟩ := h id a ha
    obtain ⟨c, hc, hname', hagent'⟩ := h' id b hb
    exact ⟨c, hc, hname'.trans hname, hagent'.trans hagent⟩

theorem retaining_of_accounts {s t : Database} (h : t.accounts = s.accounts) : Retaining s t := by
  intro id a ha
  rw [h]
  exact ⟨a, ha, rfl, rfl⟩

theorem retaining_update {s : Database} {id : AccountId} {a b : AccountObject}
    (ha : s.accounts.find? id = some a) (hname : b.name = a.name)
    (hagent : b.recoveryAccount = a.recoveryAccount) :
    Retaining s { s with accounts := s.accounts.update id fun _ => b } := by
  intro id' a' ha'
  by_cases hid : id' = id
  · subst hid
    obtain rfl : a = a' := Option.some.inj (ha.symm.trans ha')
    refine ⟨b, ?_, hname, hagent⟩
    show (s.accounts.update id' fun _ => b).find? id' = some b
    rw [ObjectIndex.find?_update, if_pos rfl, ha]
    rfl
  · refine ⟨a', ?_, rfl, rfl⟩
    show (s.accounts.update id fun _ => b).find? id' = some a'
    rw [ObjectIndex.find?_update, if_neg hid]
    exact ha'

instance : Shareless Retaining where
  elsewhere ha _ := retaining_of_accounts ha
  account ha hname hsocial _ :=
    retaining_update ha hname (congrArg (fun x => x.1.recoveryAccount) hsocial)
  create s a _ _ _ _ _ := by
    intro id b hb
    refine ⟨b, ?_, rfl, rfl⟩
    show (s.accounts.create a).find? id = some b
    rw [ObjectIndex.find?_create, if_neg (Nat.ne_of_lt (s.accounts.bound id b hb))]
    exact hb
  shares ha hname hties := retaining_update ha hname (congrArg Ties.recoveryAccount hties)

instance (friends secondLevel waiting : AccountProfile → List AccountId) :
    Keeps AccountProfile.recoveryAccount fun p => .ok { p with
      friends := friends p, secondLevel := secondLevel p, waiting := waiting p } :=
  ⟨fun hq => by
    cases hq
    rfl⟩

instance (priority := low) (id : AccountId) (change : AccountProfile → Except Exn AccountProfile)
    [h : Keeps AccountProfile.recoveryAccount change] : Respects Retaining (modifyProfile id change) :=
  ⟨fun hr => by
    obtain ⟨a, p, ha, hp, rfl⟩ := runs_modifyProfile.mp hr
    exact retaining_update ha rfl (h.keeps hp)⟩

instance : ownerAuthorityHistoryIndex.Beside Retaining := ⟨fun _ _ => retaining_of_accounts rfl⟩
instance : accountRecoveryRequestIndex.Beside Retaining := ⟨fun _ _ => retaining_of_accounts rfl⟩
instance : changeRecoveryAccountRequestIndex.Beside Retaining :=
  ⟨fun _ _ => retaining_of_accounts rfl⟩

instance (n : UInt32) (time : TimePointSec) : Respects Retaining (setClock n time) :=
  ⟨fun hr => by
    obtain ⟨_, -, rfl⟩ := runs_modifyDgpo.mp hr
    exact retaining_of_accounts rfl⟩

variable [Externals] {s s' : Database}

theorem evaluate_retaining {push : Nat → DbM Unit} {op : Operation}
    (hplain : op.isProposalUpdate = false) (h : Runs (evaluate push op) s () s') : Retaining s s' := by
  have hrespects : Respects Retaining (evaluate push op) := by
    cases hties : op.touchesTies with
    | false =>
        cases hrecovery : op.touchesRecovery with
        | false => exact respects_evaluate hplain hties hrecovery
        | true =>
            cases op <;> first | exact (Bool.false_ne_true hrecovery).elim | skip
            case accountUpdate =>
              unfold evaluate accountUpdateEvaluator updateOwnerAuthority
              infer_instance
            case requestAccountRecovery =>
              unfold evaluate requestAccountRecoveryEvaluator
              infer_instance
            case recoverAccount =>
              unfold evaluate recoverAccountEvaluator updateOwnerAuthority
              infer_instance
            case changeRecoveryAccount =>
              unfold evaluate changeRecoveryAccountEvaluator
              infer_instance
    | true =>
        cases op <;> first | exact (Bool.false_ne_true hties).elim | skip
        case friendship =>
          unfold evaluate friendshipEvaluator addSecondLevel befriend befriendBack
          infer_instance
        case unfriend =>
          unfold evaluate unfriendEvaluator rebuildFriends rebuildSecondLevel
          infer_instance
  exact hrespects.rel h

/-- Only the processing at the end of a block changes a recovery account. -/
theorem Move.retaining {m : Move} (hm : m ≠ .recover) (hv : ProposalsValid s)
    (h : Runs m.run s () s') : Retaining s s' := by
  have htraces : Traces fun s _ s' => Retaining s s' :=
    ⟨fun _ _ => retaining_of_accounts rfl, Preorder₂.trans, fun h => h⟩
  have heval := fun (push : Nat → DbM Unit) op s s' (hplain : op.isProposalUpdate = false)
    (_ : op.validate = .ok ()) (hr : Runs (evaluate push op) s () s') => evaluate_retaining hplain hr
  cases m with
  | recover => exact absurd rfl hm
  | settle => exact Respects.rel (R := Retaining) (m := settleBlock) h
  | startBlock b => exact Respects.rel (R := Retaining) (m := BtcmChain.startBlock b) h
  | advance b => exact Respects.rel (R := Retaining) (m := advanceClock b) h
  | operation op =>
      obtain ⟨_, hvalid, h⟩ := runs_bind_ofExcept.mp h
      exact (applyOperation_trace htraces heval _ op s s' hvalid hv h).1
  | expire id => exact (expire_trace htraces heval hv h).1

end Retaining

/-! ## Runs -/

section Runs

variable [Externals] {p : Phase} {l : List Call} {s s' : Database}

/-- The recovery tables of the state, without the clock. -/
def Database.recoveryTables (s : Database) : ObjectIndex OwnerAuthorityHistoryObject ×
    ObjectIndex AccountRecoveryRequestObject × ObjectIndex ChangeRecoveryAccountRequestObject :=
  (s.ownerHistory, s.recoveryRequests, s.changeRecoveryRequests)

instance : Shareless (Fixing Database.recoveryTables) where
  refl := Preorder₂.refl
  trans := Preorder₂.trans
  elsewhere _ hv := congrArg (fun v : Recoveries => (v.ownerHistory, v.requests, v.changes)) hv
  account _ _ _ _ := rfl
  create _ _ _ _ _ _ _ := rfl
  shares _ _ _ := rfl

instance (change : DynamicGlobalPropertyObject → Except Exn DynamicGlobalPropertyObject) :
    Respects (Fixing Database.recoveryTables) (modifyDgpo change) :=
  ⟨fun hr => by
    obtain ⟨_, -, rfl⟩ := runs_modifyDgpo.mp hr
    rfl⟩

instance (n : UInt32) (time : TimePointSec) :
    Respects (Fixing Database.recoveryTables) (setClock n time) := by
  unfold setClock
  infer_instance

instance : accountIndex.Beside (Fixing Database.recoveryTables) := ⟨fun _ _ => rfl⟩

/-- Genesis writes none of the recovery tables, so they are empty behind it. -/
theorem initGenesis_recoveries {g : GenesisState} (h : Runs (initGenesis g) {} () s) :
    s.recoveries = ⟨.empty, .empty, .empty, s.dgpo.time⟩ := by
  have hrespects : Respects (Fixing Database.recoveryTables) (initGenesis g) := by
    have haccounts : ∀ o, Respects (Fixing Database.recoveryTables) (accountCreateEvaluator o) :=
      fun o => (respects_evaluate rfl rfl rfl : Respects (Fixing Database.recoveryTables)
        (evaluate (fun _ => pure ()) (.accountCreate o)))
    unfold initGenesis createInitMiner importAsset importBalance importVesting
    infer_instance
  have htables : s.recoveryTables = (.empty, .empty, .empty) := hrespects.rel h
  obtain ⟨hhistory, htables⟩ := Prod.mk.inj htables
  obtain ⟨hrequests, hchanges⟩ := Prod.mk.inj htables
  rw [Database.recoveries, hhistory, hrequests, hchanges]

omit [Externals] in
/-- Advancing the clock leaves the recovery tables alone. -/
theorem advanceClock_recoveries {b : SignedBlock} (h : Runs (advanceClock b) s () s') :
    s'.recoveries = { s.recoveries with now := b.timestamp } := by
  have htables : s'.recoveryTables = s.recoveryTables :=
    Respects.rel (R := Fixing Database.recoveryTables) h
  obtain ⟨hhistory, htables⟩ := Prod.mk.inj htables
  obtain ⟨hrequests, hchanges⟩ := Prod.mk.inj htables
  obtain ⟨⟨⟩, t, hticks, h⟩ := runs_bind.mp h
  obtain ⟨⟨⟩, u, hsigns, h⟩ := runs_bind.mp h
  have hrest : s'.clock = t.clock :=
    (Writes.clock_eq (m := updateLastIrreversibleBlock) h (by decide)).trans
      (Writes.clock_eq (m := updateSigningWitness b.witness b.timestamp) hsigns (by decide))
  have htime : s'.dgpo.time = b.timestamp := by
    have hclock := hrest.trans (runs_updateGlobalDynamicData hticks).1
    exact congrArg Prod.snd hclock
  rw [Database.recoveries, hhistory, hrequests, hchanges, htime]
  rfl

omit [Externals] in
/-- What backs the tables now backs them at any later time. -/
theorem Recoveries.Backed.advance {v : Recoveries} (h : v.Backed l) {now : TimePointSec}
    (hle : v.now ≤ now) : Recoveries.Backed l { v with now } where
  requests := h.requests.mono fun _ _ _ _ ⟨agent, hop, hagent, htime, hexpires⟩ =>
    ⟨agent, hop, hagent, UInt32.le_trans htime hle, hexpires⟩
  changes := h.changes
  history id e he := by
    obtain ⟨hvalid, howner⟩ := h.history id e he
    exact ⟨UInt32.le_trans hvalid hle, howner⟩
  inOrder := h.inOrder
  recovered := h.recovered

/-- **The tables against the record**, in every run: they are backed, and outside the end of a block
nothing in them has run out. -/
theorem Chronicle.backed (h : Chronicle p l s) :
    s.recoveries.Backed l ∧ (p = .applying → s.recoveries.Fresh) := by
  induction h with
  | @genesis g s hg =>
      rw [initGenesis_recoveries hg]
      refine ⟨⟨.empty, .empty, ?_, ?_, ?_⟩, fun _ => ⟨?_, ?_⟩⟩
      · exact fun _ _ h => by cases h
      · exact fun _ _ _ _ h => by cases h
      · intro before t name owner recent after hl
        simp at hl
      · exact fun _ _ h => by cases h
      · exact fun _ _ h => by cases h
  | @move p q m l s s' hs hnext hm ih =>
      have hv := hs.reachable.proposalsValid
      cases p <;> cases m <;> first | (cases hnext; done) | skip
      case applying.operation op =>
        cases hnext
        obtain ⟨_, hvalid, hm⟩ := runs_bind_ofExcept.mp hm
        have hcarries := (applyOperation_trace (traces_carries True)
          (fun _ _ _ _ hplain _ hr => evaluate_carries True hplain hr) _ op s s' hvalid hv hm).1
        obtain ⟨hb, hf⟩ := hcarries (fun _ _ => .inl trivial) l ih.1 fun _ => ih.2 rfl
        exact ⟨hb, fun _ => hf trivial⟩
      case applying.startBlock b =>
        cases hnext
        have hm : Runs (BtcmChain.startBlock b) s () s' := hm
        have hview : s'.recoveries = s.recoveries :=
          Respects.rel (R := Fixing Database.recoveries) hm
        rw [hview, show Move.calls (.startBlock b) s = [] from rfl, List.append_nil]
        exact ⟨ih.1, fun _ => ih.2 rfl⟩
      case applying.advance b =>
        simp only [Move.next] at hnext
        split at hnext
        case isFalse => cases hnext
        case isTrue hlater =>
          cases hnext
          have hm : Runs (advanceClock b) s () s' := hm
          rw [advanceClock_recoveries hm, show Move.calls (.advance b) s = [] from rfl, List.append_nil]
          exact ⟨ih.1.advance (UInt32.le_of_lt hlater), fun hp => by cases hp⟩
      case finishing.expire id =>
        cases hnext
        have hordinary : ∀ c ∈ (Move.expire id).calls s, False ∨ c.op.isRecoverAccount = false :=
          fun c hc => .inr (mem_expireCalls hv hs.reachable.proposalsOrdinary c hc)
        have hcarries := (expire_trace (traces_carries False)
          (fun _ _ _ _ hplain _ hr => evaluate_carries False hplain hr) hv hm).1
        exact ⟨(hcarries hordinary l ih.1 False.elim).1, fun hp => by cases hp⟩
      case finishing.settle =>
        cases hnext
        have hm : Runs settleBlock s () s' := hm
        have hview : s'.recoveries = s.recoveries :=
          Respects.rel (R := Fixing Database.recoveries) hm
        rw [hview, show Move.calls (.settle) s = [] from rfl, List.append_nil]
        exact ⟨ih.1, fun hp => by cases hp⟩
      case finishing.recover =>
        cases hnext
        have hm : Runs accountRecoveryProcessing s () s' := hm
        obtain ⟨hprocessed, hfresh⟩ := accountRecoveryProcessing_processed ih.1 hm
        rw [show Move.calls (.recover) s = [] from rfl, List.append_nil]
        exact ⟨hprocessed.backed, fun _ => hfresh⟩

/-! ## The main result -/

/-- The operation, if it enters a request for another recovery account, is evaluated early enough for
the thirty days to end within the 32 bits of a time. -/
def Call.Timely (c : Call) : Prop :=
  ∀ name agent, c.op = .changeRecoveryAccount name agent → c.state.EntersChange name agent →
    c.state.dgpo.time.toNat + 2592000 < 2 ^ 32

/-- Every recovery account that differs between two states was asked for thirty days before the
second, and nothing else was since. -/
def Unhurried (l : List Call) (s s' : Database) : Prop :=
  ∀ id a a', s.accounts.find? id = some a → s'.accounts.find? id = some a' →
    a'.recoveryAccount ≠ a.recoveryAccount →
    ∃ t : Database, Latest (fun c : Call => c.op.aboutChange a.name) l
        ⟨t, .changeRecoveryAccount a.name a'.recoveryAccount⟩ ∧
      t.dgpo.time.toNat + 2592000 ≤ s'.dgpo.time.toNat

omit [Externals] in
/-- What the end of a block makes of the recovery accounts, if all changes were asked for in time. -/
theorem Processed.unhurried (h : Processed l s s') (hb : s.recoveries.Backed l)
    (htimely : ∀ c ∈ l, c.Timely) : Unhurried l s s' := by
  intro id a a' ha ha' hne
  obtain ⟨b, hb', -, hsame⟩ := h.accounts id a' ha'
  obtain rfl : a = b := Option.some.inj (ha.symm.trans hb')
  obtain ⟨qid, q, hq, hdue, hname, hagent⟩ := hsame.resolve_left hne
  obtain ⟨⟨t, op⟩, hlatest, hop, henters, heffective⟩ := hb.changes.latest qid q hq
  have hop : op = .changeRecoveryAccount q.accountToRecover q.recoveryAccount := hop
  have heffective : q.effectiveOn = t.dgpo.time + 2592000 := heffective
  subst hop
  have hbound : t.dgpo.time.toNat + 2592000 < 2 ^ 32 := htimely _ hlatest.mem _ _ rfl henters
  have hwrap : (t.dgpo.time + 2592000).toNat = t.dgpo.time.toNat + 2592000 := by
    rw [UInt32.toNat_add]
    exact Nat.mod_eq_of_lt hbound
  rw [hname, hagent] at hlatest
  refine ⟨t, hlatest, ?_⟩
  rw [h.time, ← hwrap, ← heffective]
  exact UInt32.le_iff_toNat_le.mp hdue

/-- **Account recovery is safe.** In every run each recovery was asked for within a day by whom the
account trusted then, for exactly this owner and with nothing said about it since, and names an owner
of the last thirty days. A recovery account only changes to what was asked for thirty days before,
provided that no request for a change is entered in the last thirty days of time. -/
theorem account_recovery_safe (h : Chronicle p l s) :
    (∀ before t name owner recent after,
      l = before ++ ⟨t, .recoverAccount name owner recent⟩ :: after →
        Endorsed before t name owner recent) ∧
    ((∀ c ∈ l, c.Timely) → ∀ (m : Move) (q : Phase) (s' : Database), m.next s p = some q →
      Runs m.run s () s' → Unhurried l s s') := by
  refine ⟨h.backed.1.recovered, ?_⟩
  intro htimely m q s' hnext hm
  by_cases hrecover : m = .recover
  · subst hrecover
    have hm : Runs accountRecoveryProcessing s () s' := hm
    exact (accountRecoveryProcessing_processed h.backed.1 hm).1.unhurried h.backed.1 htimely
  · intro id a a' ha ha' hne
    obtain ⟨b, hb, -, hsame⟩ := Move.retaining hrecover h.reachable.proposalsValid hm id a ha
    obtain rfl : a' = b := Option.some.inj (ha'.symm.trans hb)
    exact absurd hsame hne

end Runs

/-! ### An account recovered -/

open Sample

/-- The key of `initminer1` is replaced, and replaced again with the help of the witness with the
most votes. -/
theorem initminer1_recovered : ∃ (l before : List Call) (t s : Database), Chronicle .applying l s ∧
    l = before ++ [⟨t, .recoverAccount "initminer1" (.ofKey 1 8 1) (.ofKey 1 1 1)⟩] ∧
    Endorsed before t "initminer1" (.ofKey 1 8 1) (.ofKey 1 1 1) ∧
    ∀ (m : Move) (q : Phase) (s' : Database), m.next s .applying = some q → Runs m.run s () s' →
      Unhurried l s s' := by
  have hrun : leadsTo (do
      initGenesis richGenesis
      applyOperation BTCM_MAX_PROPOSAL_NESTING
        (.accountUpdate { account := "initminer1", owner := some (.ofKey 1 7 1) })
      applyOperation BTCM_MAX_PROPOSAL_NESTING
        (.requestAccountRecovery "initminer" "initminer1" (.ofKey 1 8 1))
      applyOperation BTCM_MAX_PROPOSAL_NESTING
        (.recoverAccount "initminer1" (.ofKey 1 8 1) (.ofKey 1 1 1))) {} (fun _ => true) = true := by
    decide +kernel
  obtain ⟨s, hrun, -⟩ := leadsTo_iff.mp hrun
  obtain ⟨⟨⟩, s₀, hgenesis, hrun⟩ := runs_bind.mp hrun
  obtain ⟨⟨⟩, s₁, hupdate, hrun⟩ := runs_bind.mp hrun
  obtain ⟨⟨⟩, s₂, hrequest, hrecover⟩ := runs_bind.mp hrun
  have h := (((Chronicle.genesis hgenesis).operation (by decide +kernel) hupdate).operation
    (by decide +kernel) hrequest).operation (by decide +kernel) hrecover
  obtain ⟨hendorsed, htimely⟩ := account_recovery_safe h
  refine ⟨_, _, s₂, s, h, rfl, hendorsed _ _ _ _ _ _ rfl, htimely fun c hc name agent hop _ => ?_⟩
  simp only [List.nil_append, List.mem_append] at hc
  rcases hc with (hc | hc) | hc <;> cases List.mem_singleton.mp hc <;> cases hop

/-! ### The last thirty days of time -/

/-- In the first block the two other initial witnesses give up their signing keys. -/
def soloBlock : SignedBlock where
  witness := "initminer"
  timestamp := 1585422003
  transactions := [["initminer1", "initminer2"].map fun owner => .witnessUpdate
    { owner, url := "url", blockSigningKey := 0, props := {}, fee := btcm 0 }]

/-- From the second round of the schedule on `initminer` is alone. -/
def soloChain : List SignedBlock :=
  soloBlock :: (quietChain 21).tail

/-- A block of `initminer` with less than thirty days to go. -/
def lateBlock : SignedBlock := ⟨"initminer", 4292375298, []⟩

/-- The advance of a block without the slots that were missed before it. -/
def advanceAtOnce (b : SignedBlock) : DbM Unit := do
  let slot ← reads fun s => s.slotAtTime b.timestamp
  require (slot ≠ 0) "missed_blocks != 0"
  let head ← reads fun s => s.dgpo.headBlockNumber
  setClock (head + 1) b.timestamp
  modifyParams fun p => { p with currentAslot := p.currentAslot + slot.toUInt64 }
  let reversible ← reads fun s => s.dgpo.headBlockNumber - s.dgpo.lastIrreversibleBlockNum
  require (reversible < BTCM_MAX_UNDO_HISTORY)
    "Please add a checkpoint if you would like to continue applying blocks beyond this point."
  updateSigningWitness b.witness b.timestamp
  updateLastIrreversibleBlock

/-- Slots that nobody else was to fill change nothing when they are missed. -/
theorem runs_missSlot_solo {s : Database} {producer : String} {w : Entry WitnessObject}
    (hschedule : s.witnessSchedule.currentShuffledWitnesses = [producer])
    (hw : s.witnesses.findBy? (·.owner = producer) = some (w.id, w.val)) (n : Nat) :
    Runs (missSlot producer n) s () s := by
  have howner : w.val.owner = producer := by
    simpa using (ObjectIndex.find?_of_findBy? hw).2
  simp only [missSlot, getScheduledWitness, getWitness, bind_assoc, runs_bind_reads, hschedule]
  simp only [List.length_cons, List.length_nil, Nat.zero_add, Nat.mod_one, List.getElem?_cons_zero,
    Option.elim_some, runs_bind_pure, runs_bind_getBy]
  exact ⟨w, hw, by simp [howner]⟩

theorem runs_advanceClock_solo {s s' : Database} {b : SignedBlock} {w : Entry WitnessObject}
    (hschedule : s.witnessSchedule.currentShuffledWitnesses = [b.witness])
    (hw : s.witnesses.findBy? (·.owner = b.witness) = some (w.id, w.val))
    (h : Runs (advanceAtOnce b) s () s') : Runs (advanceClock b) s () s' := by
  have hmissed : ∀ n : Nat, Runs ((List.range n).forM fun i => missSlot b.witness (i + 1)) s () s := by
    intro n
    obtain ⟨t, ht, rfl⟩ := exists_runs_forM (P := fun t => t = s) (l := List.range n)
      (f := fun i => missSlot b.witness (i + 1))
      (fun i _ t ht => ⟨t, ht ▸ runs_missSlot_solo hschedule hw (i + 1), ht⟩) rfl
    exact ht
  simp only [advanceAtOnce, runs_bind_reads, runs_bind_require] at h
  simp only [advanceClock, updateGlobalDynamicData, bind_assoc, runs_bind_reads, runs_bind_require]
  exact ⟨h.1, runs_bind.mpr ⟨(), s, hmissed _, h.2⟩⟩

/-- `initminer` asks for another recovery account between two blocks so late. -/
def lateChange : DbM Unit := do
  advanceAtOnce lateBlock
  settleBlock
  accountRecoveryProcessing
  applyOperation BTCM_MAX_PROPOSAL_NESTING (.changeRecoveryAccount "initminer" "initminer1")
  startBlock ⟨"initminer", 4292375301, []⟩
  advanceClock ⟨"initminer", 4292375301, []⟩
  settleBlock

/-- `initminer` alone is scheduled, and there is such a witness. -/
def Database.solo (s : Database) : Bool :=
  s.witnessSchedule.currentShuffledWitnesses = ["initminer"] &&
    (s.witnesses.findBy? fun w => w.owner = "initminer").isSome

/-- The name of `initminer`, and who may ask for the recovery of that account. -/
def Database.trusted (s : Database) : Option (String × String) :=
  (s.accounts.find? 3).map fun a => (a.name, a.recoveryAccount)

/-- The first change of a recovery account that is asked for. -/
def Database.firstChange (s : Database) : Option (String × String × TimePointSec) :=
  (s.changeRecoveryRequests.find? 0).map fun q =>
    (q.accountToRecover, q.recoveryAccount, q.effectiveOn)

/-- The run up to the processing that makes the change, with what is on the docket then. -/
theorem lateChange_due : ∃ (l : List Call) (s s' : Database), Chronicle .finishing l s ∧
    Runs accountRecoveryProcessing s () s' ∧ s.trusted = some ("initminer", "") ∧
    s.firstChange = some ("initminer", "initminer1", 2) ∧
    s'.trusted = some ("initminer", "initminer1") := by
  have hrun : leadsTo (do
      replay richGenesis soloChain) {} (fun r => r.dgpo.time < lateBlock.timestamp &&
      leadsTo (startBlock lateBlock) r fun t =>
        t.solo && leadsTo lateChange t fun s =>
          s.trusted = some ("initminer", "") && s.firstChange = some ("initminer", "initminer1", 2) &&
          leadsTo accountRecoveryProcessing s fun s' =>
            s'.trusted = some ("initminer", "initminer1")) = true := by
    decide +kernel
  simp only [leadsTo_iff, Bool.and_eq_true, decide_eq_true_eq] at hrun
  obtain ⟨r, hr, hlate, t, ht, hsolo, s, hs, ⟨htrusted, hchange⟩, s', hs', htrusted'⟩ := hrun
  obtain ⟨l, hl⟩ := exists_chronicle hr
  have hclock : t.dgpo.time = r.dgpo.time := congrArg Prod.snd (Writes.clock_eq ht (by decide))
  have hstart := hl.move (m := .startBlock lateBlock) rfl ht
  obtain ⟨⟨⟩, u₁, h₁, hs⟩ := runs_bind.mp hs
  obtain ⟨⟨⟩, u₂, h₂, hs⟩ := runs_bind.mp hs
  obtain ⟨⟨⟩, u₃, h₃, hs⟩ := runs_bind.mp hs
  obtain ⟨⟨⟩, u₄, h₄, hs⟩ := runs_bind.mp hs
  obtain ⟨⟨⟩, u₅, h₅, hs⟩ := runs_bind.mp hs
  obtain ⟨⟨⟩, u₆, h₆, h₇⟩ := runs_bind.mp hs
  simp only [Database.solo, Bool.and_eq_true, decide_eq_true_eq, Option.isSome_iff_exists] at hsolo
  obtain ⟨hschedule, w, hw⟩ := hsolo
  have hadvanced := hstart.move (m := .advance lateBlock) (by rw [Move.next, hclock, if_pos hlate])
    (runs_advanceClock_solo (w := ⟨w.1, w.2⟩) hschedule hw h₁)
  have hdone := (hadvanced.move (m := .settle) rfl h₂).move (m := .recover) rfl h₃
  have hasked := hdone.operation rfl h₄
  have hnext := hasked.move (m := .startBlock ⟨"initminer", 4292375301, []⟩) rfl h₅
  have hlater : u₅.dgpo.time < 4292375301 := by
    have hclock₅ : u₅.dgpo.time = u₄.dgpo.time := congrArg Prod.snd (Writes.clock_eq h₅ (by decide))
    simp only [startBlock, runs_bind_headBlockTime, runs_bind_require, decide_eq_true_eq] at h₅
    rw [hclock₅]
    exact h₅.1
  have hticked := hnext.move (m := .advance ⟨"initminer", 4292375301, []⟩)
    (by rw [Move.next, if_pos hlater]) h₆
  exact ⟨_, s, s', hticked.move (m := .settle) rfl h₇, hs', htrusted, hchange, htrusted'⟩

/-- The change takes effect three seconds after it was asked for. -/
theorem late_change_of_recovery_account :
    ¬ ∀ (p : Phase) (l : List Call) (s : Database), Chronicle p l s →
      (∀ before t name owner recent after,
        l = before ++ ⟨t, .recoverAccount name owner recent⟩ :: after →
          Endorsed before t name owner recent) ∧
      ∀ (m : Move) (q : Phase) (s' : Database), m.next s p = some q → Runs m.run s () s' →
        Unhurried l s s' := by
  intro hclaim
  obtain ⟨l, s, s', hl, hr, htrusted, hchange, htrusted'⟩ := lateChange_due
  have hunhurried := (hclaim .finishing l s hl).2 .recover .applying s' rfl hr
  obtain ⟨a, ha, hname⟩ := Option.map_eq_some_iff.mp htrusted
  obtain ⟨a', ha', hname'⟩ := Option.map_eq_some_iff.mp htrusted'
  obtain ⟨hname, hagent⟩ := Prod.mk.inj hname
  obtain ⟨-, hagent'⟩ := Prod.mk.inj hname'
  obtain ⟨t, hlatest, hlong⟩ := hunhurried 3 a a' ha ha' (by rw [hagent, hagent']; decide)
  obtain ⟨q, hq, hfields⟩ := Option.map_eq_some_iff.mp hchange
  obtain ⟨haccount, hfields⟩ := Prod.mk.inj hfields
  obtain ⟨-, heffective⟩ := Prod.mk.inj hfields
  obtain ⟨⟨u, op⟩, hlatest', hop, -, hdue⟩ := hl.backed.1.changes.latest 0 q hq
  have hop : op = .changeRecoveryAccount q.accountToRecover q.recoveryAccount := hop
  have hdue : q.effectiveOn = u.dgpo.time + 2592000 := hdue
  subst hop
  rw [haccount, ← hname] at hlatest'
  have hsame := hlatest.unique hlatest' (decide_eq_true rfl) (decide_eq_true rfl)
  obtain rfl : t = u := congrArg Call.state hsame
  have hbound := s'.dgpo.time.toNat_lt
  have hwrap : (t.dgpo.time + 2592000).toNat = 2 := by
    rw [← hdue, heffective]
    rfl
  rw [UInt32.toNat_add] at hwrap
  have hperiod : (2592000 : UInt32).toNat = 2592000 := rfl
  omega

end BtcmChain
