/-
The governance hook, which the token tells of every transfer, mint and burn
before it makes it, and which governance is built on. A hook that keeps the
ledger it is told of has the token's: at every moment, whatever tokens do
while calls wait for them, the transfers it was told of and that were not
undone with the calls that told of them make what accounts hold
(`hook_mirrors`).
-/
import StarlayStake.Callbacks
import StarlayStake.TokenStandard

namespace StarlayStake

open FungibleToken (Op)
open StakedToken

variable {W : Type}

/-- A call `onTransfer(from, to, amount)`. -/
structure OnTransfer where
  src : Address
  dst : Address
  amount : Nat
  deriving DecidableEq

/-- What it is to a ledger: the zero address is where tokens come from and go to. -/
def OnTransfer.op (n : OnTransfer) : Op Address :=
  if n.src = 0 then .mint n.dst n.amount
  else if n.dst = 0 then .burn n.src n.amount
  else .move n.src n.dst n.amount

/-- What a storage has of a fungible token but for allowances, of which a hook
is not told. -/
def State.holdings (s : State W) : FungibleToken.State Address := { s.toToken with allowances := fun _ _ => 0 }

/-- A hook that notes down what it is told, in `told`. -/
def Listens (D : Deployment W) (told : W → List OnTransfer) : Prop :=
  ∀ governance src dst amount w w', D.ext.onTransfer governance src dst amount w = .ok w' →
    told w' = told w ++ [⟨src, dst, amount⟩]

/-- From one storage to another the hook was told of what changed in between. -/
structure Mirrored (told : W → List OnTransfer) (heard : List OnTransfer) (s s' : State W) : Prop where
  told : told s'.world = told s.world ++ heard
  holdings : Runs.transact FungibleToken.apply s.holdings (heard.map OnTransfer.op) = .ok s'.holdings

section

variable {D : Deployment W} {told : W → List OnTransfer} {heard heard' : List OnTransfer} {x : Tx} {s s' s'' : State W}
  {v : Version} {m : Msg} {src dst : Address} {amount : Nat} {g : Address} {w w' : W}

theorem Mirrored.trans (h : Mirrored told heard s s') (h' : Mirrored told heard' s' s'') :
    Mirrored told (heard ++ heard') s s'' := by
  refine ⟨?_, ?_⟩
  · rw [h'.told, h.told, List.append_assoc]
  · rw [List.map_append]
    exact Runs.transact_append h.holdings h'.holdings

/-- Where nobody's holdings change and the hook is told nothing. -/
theorem Mirrored.silent (hworld : told s'.world = told s.world) (hholdings : s'.holdings = s.holdings) :
    Mirrored told [] s s' :=
  ⟨by rw [hworld, List.append_nil], by rw [hholdings]; rfl⟩

/-- A hook is told, but of an account's transfer to itself in version 1. -/
theorem told_of_notified (hhook : Listens D told) (hg : g ≠ 0) (h : notified D v src dst amount g w = .ok w') :
    (src = dst ∧ w' = w) ∨ told w' = told w ++ [⟨src, dst, amount⟩] := by
  unfold notified at h
  split at h
  · next hquiet => exact .inl ⟨(hquiet.resolve_left hg).2, (Except.ok.inj h).symm⟩
  · exact .inr (hhook _ _ _ _ _ _ h)

theorem mirrored_transfer (hhook : Listens D told) (hg : s.governance ≠ 0)
    (h : transfer D m v src dst amount s = .ok s') : ∃ heard, Mirrored told heard s s' := by
  have happly : FungibleToken.apply (.move src dst amount) s.holdings = .ok s'.holdings := by
    obtain ⟨hle, htoken⟩ := FungibleToken.ite_ok_iff.1 (toToken_transfer h)
    refine FungibleToken.ite_ok_iff.2 ⟨hle, ?_⟩
    simp only [State.holdings, htoken]
  by_cases heq : src = dst
  · subst heq
    obtain ⟨hsrc, ha, -, r, assets, p, w, -, -, -, hw, rfl⟩ := transfer_self_ok_iff.1 h
    rcases told_of_notified hhook hg hw with ⟨-, rfl⟩ | htold
    · refine ⟨[], .silent rfl ?_⟩
      -- what is taken is given back
      simp only [State.holdings, State.toToken, Ledger.credit_debit ha]
      rfl
    · refine ⟨_, htold, transact_one ?_⟩
      simpa [OnTransfer.op, hsrc] using happly
  · obtain ⟨hsrc, hdst, -, -, r, assets, r', assets', c, p, w, -, -, -, -, -, -, hw, rfl⟩ := (transfer_ok_iff heq).1 h
    obtain ⟨rfl, -⟩ | htold := told_of_notified hhook hg hw
    · exact absurd rfl heq
    · refine ⟨_, htold, transact_one ?_⟩
      simpa [OnTransfer.op, hsrc, hdst] using happly

/-- Whatever a call does to what accounts hold, it tells the hook of. -/
theorem mirrored_of_exec (hhook : Listens D told) (hg : s.governance ≠ 0) (h : exec D.quiet x s = .ok s') :
    ∃ heard, Mirrored told heard s s' := by
  have hhook' : Listens D.quiet told := hhook
  cases effect_of_exec h with
  | stake onBehalfOf amount hx h =>
    obtain ⟨-, hu, -, -, r, assets, c, p, w, w', -, -, -, -, hw, hw', rfl⟩ := stake_ok_iff.1 h
    obtain rfl := safeTransferFrom_quiet.1 hw'
    obtain ⟨rfl, -⟩ | htold := told_of_notified hhook' hg hw
    · exact absurd rfl hu
    · exact ⟨_, htold, transact_one (by simp [OnTransfer.op]; rfl)⟩
  | redeem dst amount hx h =>
    obtain ⟨-, -, -, -, -, r, assets, p, w, w', -, -, -, hw, hw', rfl⟩ := redeem_ok_iff.1 h
    obtain rfl := safeTransfer_quiet.1 hw'
    obtain ⟨hsender, -⟩ | htold := told_of_notified hhook' hg hw
    · exact absurd hsender x.msg.sender_ne
    · refine ⟨_, htold, transact_one ?_⟩
      simp only [OnTransfer.op, x.msg.sender_ne, if_false, if_true]
      exact FungibleToken.ite_ok_iff.2 ⟨Nat.min_le_right _ _, rfl⟩
  | cooldown hx h =>
    obtain ⟨-, rfl⟩ := cooldown_ok_iff.1 h
    exact ⟨[], .silent rfl rfl⟩
  | claimRewards dst amount claimed hx h =>
    obtain ⟨r, assets, w, -, -, -, -, hw, rfl⟩ := claimRewards_ok_iff.1 h
    obtain rfl := safeTransferFrom_quiet.1 hw
    exact ⟨[], .silent rfl rfl⟩
  | transfer src dst amount allowances s₁ hx h hs' =>
    obtain ⟨heard, hmirrored⟩ := mirrored_transfer hhook' hg h
    subst hs'
    exact ⟨heard, hmirrored.told, hmirrored.holdings⟩
  | configureAssets inputs hx h =>
    obtain ⟨-, assets, -, rfl⟩ := configureAssets_ok_iff.1 h
    exact ⟨[], .silent rfl rfl⟩
  | aside hx allowances power nonces hs' =>
    subst hs'
    exact ⟨[], .silent rfl rfl⟩

end

/-- **A hook that listens has the token's ledger.** Where a governance hook is
set and what happens outside tells it nothing, then at every moment, and so
also inside a callback: what it was told and what was not undone is a list of
transfers that can be made one after the other, out of what accounts had; and
they lead to what accounts have, and to the supply. So every balance is what
it was with what the hook was told it was given, and without what the hook was
told was taken from it. -/
theorem hook_mirrors {D : Deployment W} {told : W → List OnTransfer} {s : State W} {l : Moves W}
    (hhook : Listens D told) (hg : s.governance ≠ 0)
    (houtside : ∀ q w, q ++ [.outside w] <+: l → told w = told (session D s q).state.world)
    (hsupply : Ledger.total s.balances = s.totalSupply) :
    let s' := (session D s l).state
    ∃ heard, told s'.world = told s.world ++ heard ∧
      Runs.transact FungibleToken.apply s.holdings (heard.map OnTransfer.op) = .ok s'.holdings ∧
      s'.totalSupply + ((heard.map OnTransfer.op).map Op.burned).sum =
        s.totalSupply + ((heard.map OnTransfer.op).map Op.minted).sum ∧
      ∀ a, s'.balances a + ((heard.map OnTransfer.op).map (Op.outgoing a)).sum =
        s.balances a + ((heard.map OnTransfer.op).map (Op.incoming a)).sum := by
  intro s'
  have hinv : s'.governance = s.governance ∧ ∃ heard, Mirrored told heard s s' := by
    refine Reentrancy.Contract.invariant_tail (C := waiting D) (P := fun _ => True) (Q := fun _ _ => True)
      (I := fun s' => s'.governance = s.governance ∧ ∃ heard, Mirrored told heard s s')
      (R := fun w s => told w = told s.world) (tail D) (fun x s₁ s₂ _ _ hI h => ?_) (fun w s₁ hw hI => ?_)
      ⟨rfl, [], .silent rfl rfl⟩ (fun _ _ _ => trivial) houtside fun _ _ => trivial
    · obtain ⟨hgovernance, heard, hmirrored⟩ := hI
      rw [plain_eq] at h
      obtain ⟨heard', hmirrored'⟩ := mirrored_of_exec hhook (hgovernance ▸ hg) h
      exact ⟨(governance_of_exec h).trans hgovernance, _, hmirrored.trans hmirrored'⟩
    · obtain ⟨hgovernance, heard, hmirrored⟩ := hI
      exact ⟨hgovernance, heard, hw.trans hmirrored.told, hmirrored.holdings⟩
  obtain ⟨-, heard, hmirrored⟩ := hinv
  have haccounts := FungibleToken.accounts (s := s.holdings) hsupply hmirrored.holdings
  exact ⟨heard, hmirrored.told, hmirrored.holdings, haccounts.supply, haccounts.balances⟩

/-- A deployment whose hook listens, in a world that has something else too. -/
def Deployment.listening : Deployment (List OnTransfer × Nat) :=
  { Deployment.sample.toImmutables with
    ext := {
      isContract := fun _ _ => true
      transfer := fun _ _ _ _ w => .ok (some true, w)
      transferFrom := fun _ _ _ _ _ w => .ok (some true, w)
      onTransfer := fun _ src dst amount w => .ok (w.1 ++ [⟨src, dst, amount⟩], w.2)
      recover := fun _ _ => .ok 0 } }

/-- A holder stakes, and passes some on while the token waits; in the same
time another stakes in vain. -/
theorem hook_mirrors_nested :
    let holder : Msg := ⟨.ofNat 10, 2, 201, sampleHolder_ne⟩
    let other : Msg := ⟨.ofNat 11, 2, 201, sampleOther_ne⟩
    let l : Moves (List OnTransfer × Nat) := [.outside ([], 1), .enter ⟨.v2, holder, .stake (.ofNat 10) 7⟩,
      .enter ⟨.v2, other, .stake (.ofNat 11) 3⟩, .undo, .enter ⟨.v1, holder, .transfer (.ofNat 10) 5⟩,
      .enter ⟨.v2, holder, .transfer (.ofNat 11) 2⟩]
    let s' := (session .listening (.fresh (.ofNat 6) ([], 0)) l).state
    s'.world.1 = [⟨0, .ofNat 10, 7⟩, ⟨.ofNat 10, .ofNat 11, 2⟩] ∧
      ∃ heard, s'.world.1 = heard ∧
        s'.balances (.ofNat 10) + ((heard.map OnTransfer.op).map (Op.outgoing (.ofNat 10))).sum =
          ((heard.map OnTransfer.op).map (Op.incoming (.ofNat 10))).sum := by
  intro holder other l s'
  have hhook : Listens .listening Prod.fst := by
    intro governance src dst amount w w' h
    obtain rfl := Except.ok.inj h
    rfl
  have houtside : ∀ q w, q ++ [.outside w] <+: l →
      w.1 = (session .listening (.fresh (.ofNat 6) ([], 0)) q).state.world.1 := by
    intro q w hq
    cases q with
    | nil =>
      obtain rfl := Reentrancy.Move.outside.inj (List.cons_prefix_cons.1 hq).1
      rfl
    | cons m q =>
      -- nothing else happens outside
      have hw : .outside w ∈ l.tail := (List.cons_prefix_cons.1 hq).2.subset (by simp)
      simp [l] at hw
  have htold : s'.world.1 = [⟨0, .ofNat 10, 7⟩, ⟨.ofNat 10, .ofNat 11, 2⟩] := by decide +kernel
  have hgovernance : (State.fresh (.ofNat 6) (([] : List OnTransfer), 0)).governance ≠ 0 := by decide
  have hsupply : Ledger.total (State.fresh (.ofNat 6) (([] : List OnTransfer), 0)).balances = 0 := by
    rw [Ledger.total_def]
    exact Finset.sum_const_zero
  clear_value l
  obtain ⟨heard, htold', -, -, hbalances⟩ := hook_mirrors hhook hgovernance houtside hsupply
  exact ⟨htold, heard, htold', (hbalances (.ofNat 10)).trans (Nat.zero_add _)⟩

end StarlayStake
