import QuadraticVoting.Accounts

/-! What the events tell an observer. The node keeps the events each successful call deposits; an
indexer that sees only them can follow the voter registry, every reserved balance and the text and
end block of every stored proposal exactly: `VoterRegistered` adds a voter, `TokensReserved` and
`TokensUnreserved` carry the amount that moves, the half slashed by `unreserve_tokens` always
coming out of the free balance, and `NewProposalCreated` carries the index, text and end block
that `create_proposal` writes, also when the wrapped index overwrites a stored proposal. Every
other write of `Proposals` keeps a stored proposal's text and end block. The events do not
determine the rest: `ProposalStarted` names neither the signer nor the fee burnt from its free
balance, and `VotingEnded` names the winner, not the proposal that `vote_proposal` completes. -/
namespace QuadraticVoting.Pallet

variable {c : Config} {s t : State} {now : ℕ} {origin : Origin} {call : Call} {es : List Event}

/-- Calls one after another with the events they deposit, stopping at the first that fails. -/
def runLog (c : Config) (s : State) : List (ℕ × Origin × Call) → Except Fault (State × List Event)
  | [] => .ok (s, [])
  | (now, origin, call) :: calls => do
    let r ← dispatch c now s origin call
    let r' ← runLog c r.1 calls
    pure (r'.1, r.2 ++ r'.2)

/-- The run with its events leaves the storage of the run. -/
theorem runLog_map_fst (s : State) (calls : List (ℕ × Origin × Call)) :
    Prod.fst <$> runLog c s calls = run c s calls := by
  induction calls generalizing s with
  | nil => rfl
  | cons x calls ih =>
    obtain ⟨now, origin, call⟩ := x
    simp only [runLog, run, map_bind, map_pure, ← ih, bind_pure_comp, Functor.map_map, Function.comp_def]

theorem exists_runLog_of_run {calls : List (ℕ × Origin × Call)} (h : run c s calls = .ok t) :
    ∃ log, runLog c s calls = .ok (t, log) := by
  have hmap := runLog_map_fst (c := c) s calls
  rw [h] at hmap
  rcases hr : runLog c s calls with e | ⟨t', log⟩
  · rw [hr] at hmap; cases hmap
  · rw [hr] at hmap; cases hmap; exact ⟨log, rfl⟩

theorem runLog_cons {s' : State} {calls : List (ℕ × Origin × Call)} {log : List Event}
    (hd : dispatch c now s origin call = .ok (s', es)) (h : runLog c s' calls = .ok (t, log)) :
    runLog c s ((now, origin, call) :: calls) = .ok (t, es ++ log) := by
  simp only [runLog, bind, Except.bind, hd, h, pure, Except.pure]

/-- The events of two runs in a row are the events of the first, then those of the second. -/
theorem runLog_append {xs ys : List (ℕ × Origin × Call)} {u : State} {l₁ l₂ : List Event}
    (h₁ : runLog c s xs = .ok (t, l₁)) (h₂ : runLog c t ys = .ok (u, l₂)) :
    runLog c s (xs ++ ys) = .ok (u, l₁ ++ l₂) := by
  induction xs generalizing s l₁ with
  | nil => cases h₁; exact h₂
  | cons x xs ih =>
    obtain ⟨now, origin, call⟩ := x
    simp only [runLog, bind_eq_ok, pure_eq_ok] at h₁
    obtain ⟨⟨s₁, es₁⟩, hd, ⟨t', log'⟩, hrun, hr⟩ := h₁
    cases hr
    rw [List.cons_append, runLog_cons hd (ih hrun), List.append_assoc]

/-- The text and end block of each stored proposal. -/
def headers (m : Finmap fun _ : ℕ => Proposal) (k : ℕ) : Option (ℕ × ℕ) :=
  (m.lookup k).map fun pr => (pr.text, pr.endBlock)

theorem headers_insert (m : Finmap fun _ : ℕ => Proposal) (k : ℕ) (v : Proposal) :
    headers (m.insert k v) = Function.update (headers m) k (some (v.text, v.endBlock)) := by
  funext x
  by_cases hx : x = k
  · subst hx; simp [headers]
  · simp [headers, Finmap.lookup_insert_of_ne _ hx, hx]

/-- Rewriting a stored proposal with its own text and end block leaves the headers alone. -/
theorem headers_insert_keep {m : Finmap fun _ : ℕ => Proposal} {k : ℕ} {pr : Proposal}
    (hk : m.lookup k = some pr) (v : Proposal) (ht : v.text = pr.text) (he : v.endBlock = pr.endBlock) :
    headers (m.insert k v) = headers m := by
  rw [headers_insert, Function.update_eq_self_iff, headers, hk, ht, he]
  rfl

/-- The part of the storage the events determine: the registered voters, the reserved
balances and the headers of the stored proposals. -/
structure View where
  registered : Finset ℕ
  reserved : ℕ → ℕ
  proposals : ℕ → Option (ℕ × ℕ)

def viewOf (s : State) : View := ⟨s.registeredVoters.keys, s.balances.reserved, headers s.proposals⟩

/-- What an indexer makes of one event. -/
def View.apply (w : View) : Event → View
  | .voterRegistered v _ => { w with registered := insert v w.registered }
  | .newProposalCreated k text endBlock =>
    { w with proposals := Function.update w.proposals k (some (text, endBlock)) }
  | .tokensReserved who amount =>
    { w with reserved := Function.update w.reserved who (w.reserved who + amount) }
  | .tokensUnreserved who amount _ =>
    { w with reserved := Function.update w.reserved who (w.reserved who - amount) }
  | _ => w

theorem keys_insert_true (m : Finmap fun _ : ℕ => Bool) (v : ℕ) :
    (m.insert v true).keys = insert v m.keys := by
  ext x; simp [Finmap.mem_keys, Finmap.mem_insert]

theorem foldl_apply_of_forall (w : View) {es : List Event} (h : ∀ e ∈ es, ∀ x : View, x.apply e = x) :
    es.foldl View.apply w = w := by
  induction es generalizing w with
  | nil => rfl
  | cons e es ih =>
    rw [List.foldl_cons, h e (List.mem_cons_self _ _), ih _ fun e he => h e (List.mem_cons_of_mem _ he)]

/-- A successful call moves the registry and the reserved balances exactly as its events say. -/
theorem viewOf_step (hd : dispatch c now s origin call = .ok (t, es)) :
    viewOf t = es.foldl View.apply (viewOf s) := by
  cases dispatch_eq_ok_iff.mp hd with
  | registerVoter => simp [viewOf, View.apply, keys_insert_true]
  | createProposal => simp [viewOf, View.apply, State.insertProposal_eq, headers_insert]
  | startProposal _ hp => simp [viewOf, View.apply, State.insertProposal_eq, headers_insert_keep hp]
  | voteExpired _ hp | batchDeadline _ _ _ _ _ hp => simp [viewOf, View.apply, headers_insert_keep hp]
  | reserveTokens | voteAye | voteOther => simp [viewOf, View.apply]
  | unreserveTokens _ _ hamt =>
    simp [viewOf, View.apply, Ledger.unreserve_slash_half hamt, Ledger.setAccount]
  | batchLive =>
    rw [foldl_apply_of_forall _ fun e he w => by rw [(List.eq_of_mem_replicate he)]; rfl]
    rfl

/-- An indexer that folds the events of a run over the registry and reserved balances the run
starts from ends with the registry and reserved balances the run leaves. -/
theorem viewOf_runLog {calls : List (ℕ × Origin × Call)} {log : List Event}
    (h : runLog c s calls = .ok (t, log)) : viewOf t = log.foldl View.apply (viewOf s) := by
  induction calls generalizing s log with
  | nil => cases h; rfl
  | cons x calls ih =>
    obtain ⟨now, origin, call⟩ := x
    simp only [runLog, bind_eq_ok, pure_eq_ok] at h
    obtain ⟨⟨s₁, es₁⟩, hd, ⟨t', log'⟩, hrun, hr⟩ := h
    cases hr
    rw [ih hrun, viewOf_step hd, List.foldl_append]

theorem viewOf_runLog_tieRun : ∃ t log,
    runLog templateConfig (State.genesis ⟨fun _ => 0, fun _ => 0⟩)
        (tieRun ++ [(0, .signed 1, .unreserveTokens 10)]) = .ok (t, log) ∧
      viewOf t = log.foldl View.apply (viewOf (State.genesis ⟨fun _ => 0, fun _ => 0⟩)) := by
  obtain ⟨s, hrun, h⟩ := tieRun_matches
  obtain ⟨log, hlog⟩ := exists_runLog_of_run hrun
  have hd : dispatch templateConfig 0 s (.signed 1) (.unreserveTokens 10) = .ok _ :=
    dispatch_eq_ok_iff.mpr (.unreserveTokens (by rw [h.registeredVoters]; decide) (by decide)
      (by rw [(h.accounts (1, 44, 49) (by simp)).2]; decide))
  have h' : runLog templateConfig (State.genesis ⟨fun _ => 0, fun _ => 0⟩)
      (tieRun ++ [(0, .signed 1, .unreserveTokens 10)]) = .ok _ :=
    runLog_append hlog (runLog_cons hd rfl)
  exact ⟨_, _, h', viewOf_runLog h'⟩

end QuadraticVoting.Pallet
