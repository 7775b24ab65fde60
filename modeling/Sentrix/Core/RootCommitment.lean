import Sentrix.Core.TrieMirror

/-!
What equal roots say. Two states whose tries mirror their accounts and have one root
agree on every balance, and on the nonces of the accounts that are not empty: an account
without a balance has no leaf, so its nonce is not committed to.
-/
namespace SentrixCore
open MachineWords HashTable Effects SentrixPrimitives SparseMerkle List

theorem beBytes_inj {a b : Nat} (word : a ≤ u64Max) (word' : b ≤ u64Max)
    (same : beBytes a = beBytes b) : a = b := by
  have fits {n : Nat} (word : n ≤ u64Max) : n < 256 ^ 8 := by
    simp only [u64Max] at word
    omega
  exact leBytes_inj (fits word) (fits word') (reverse_injective same)

theorem length_beBytes (n : Nat) : (beBytes n).length = 8 := by
  rw [beBytes, length_reverse, length_leBytes]

theorem accountValue_inj {balance balance' nonce nonce' : Nat} (word : balance ≤ u64Max)
    (word' : balance' ≤ u64Max) (nonceWord : nonce ≤ u64Max) (nonceWord' : nonce' ≤ u64Max)
    (same : unlessZero balance (accountValueBytes balance nonce) =
      unlessZero balance' (accountValueBytes balance' nonce')) :
    balance = balance' ∧ (0 < balance → nonce = nonce') := by
  unfold unlessZero at same
  split at same <;> split at same
  · omega
  · cases same
  · cases same
  · obtain ⟨first, second⟩ := append_inj (Option.some.inj same)
      ((length_beBytes _).trans (length_beBytes _).symm)
    exact ⟨beBytes_inj word word' first, fun _ => beBytes_inj nonceWord nonceWord' second⟩

namespace Blockchain

/-- Reached by blocks, accepted or rejected, past the fork from a state whose trie mirrors
its accounts. The nodes a block hashes depend on the tree the trie stands for before it. -/
inductive MirrorRun (env : Platform) (b3 : Bytes → Bytes) (A : Set Address)
    (U : Set TrieNode) : Blockchain → Prop
  | start {bc : Blockchain} {t : SentrixTrie} {tree : TrieTree} (had : bc.stateTrie = some t)
      (rep : Represents env.wire b3 U t tree)
      (mirror : Mirrors env.wire b3 A t bc.accounts) : MirrorRun env b3 A U bc
  | block {bc : Blockchain} {t : SentrixTrie} {tree : TrieTree} (s : Submission)
      (run : MirrorRun env b3 A U bc)
      (fork : reached env.forks.extendedTouchList s.block.index = true)
      (had : bc.stateTrie = some t) (rep : Represents env.wire b3 U t tree)
      (contained : Contained env b3 A U s bc tree) :
      MirrorRun env b3 A U (finalState (submit env s) bc)

def SameFunds (A : Set Address) (db other : AccountDB) : Prop :=
  ∀ a ∈ A, db.getBalance a = other.getBalance a ∧
    (0 < db.getBalance a → db.getNonce a = other.getNonce a)

def Words (db : AccountDB) : Prop :=
  ∀ a, db.getBalance a ≤ u64Max ∧ db.getNonce a ≤ u64Max

section
variable {env : Platform} {b3 : Bytes → Bytes} {A : Set Address} {U : Set TrieNode}
  {bc other : Blockchain} {tree tree' : TrieTree}

theorem MirrorRun.mirrored (lib : TrieLibraries env b3 A U)
    (lowercase : ∀ a ∈ A, isCanonical a = true) (run : MirrorRun env b3 A U bc) :
    ∃ t tree, bc.stateTrie = some t ∧ Represents env.wire b3 U t tree ∧
      Mirrors env.wire b3 A t bc.accounts := by
  induction run with
  | start had rep mirror => exact ⟨_, _, had, rep, mirror⟩
  | @block bc t _ s _ fork had rep contained ih =>
    obtain ⟨t', -, had', -, mirror⟩ := ih
    cases had.symm.trans had'
    cases ran : submit env s bc with
    | ok =>
      rw [finalState_ok ran]
      exact accepted_mirrors lib lowercase fork had rep contained mirror ran
    | error =>
      rw [finalState_error ran]
      exact rejected_mirrors lib had rep contained mirror ran

theorem leaves_of_root {t t' : SentrixTrie} (lib : TrieLibraries env b3 A U)
    (rep : Represents env.wire b3 U t tree) (rep' : Represents env.wire b3 U t' tree')
    (same : t.root = t'.root) (n : KeyName) :
    tree.find (n.key env.wire) (keyBits (n.key env.wire)) =
      tree'.find (n.key env.wire) (keyBits (n.key env.wire)) := by
  apply Tree.find_of_root_eq lib.nodes rep.inside rep'.inside
  rw [← rep.root, ← rep'.root, same]

theorem accounts_of_root (lib : TrieLibraries env b3 A U)
    (lowercase : ∀ a ∈ A, isCanonical a = true) (run : MirrorRun env b3 A U bc)
    (run' : MirrorRun env b3 A U other) (words : Words bc.accounts)
    (words' : Words other.accounts)
    (same : bc.stateTrie.map (·.root) = other.stateTrie.map (·.root)) :
    SameFunds A bc.accounts other.accounts := by
  intro a inside
  obtain ⟨t, tree, had, rep, mirror⟩ := run.mirrored lib lowercase
  obtain ⟨t', tree', had', rep', mirror'⟩ := run'.mirrored lib lowercase
  have roots : t.root = t'.root := by simpa [had, had'] using same
  have leaf := leaves_of_root lib rep rep' roots (.account a)
  rw [(mirrors_iff lib rep).mp mirror a inside, (mirrors_iff lib rep').mp mirror' a inside] at leaf
  exact accountValue_inj (words a).1 (words' a).1 (words a).2 (words' a).2 leaf

end

def NativeFrom (w : Wire) (A : Set Address) (tx : Transaction) : Prop :=
  tx.fromAddress ∈ A ∧ w.tokenOp tx.data = none

/-- Whose balance has been counted, has had its nonce counted. -/
def Paired (work : Working) : Prop :=
  ∀ a, work.nonces.lookup a = none → work.balances.lookup a = none

section
variable {env : Platform} {A : Set Address} {bc other : Blockchain} {work next done : Working}
  {tx : Transaction} {txs : List Transaction}

def Working.after (work : Working) (bc : Blockchain) (tx : Transaction) : Working :=
  { work with
    seen := (tx.fromAddress, tx.nonce) :: work.seen
    balances := work.balances.insert tx.fromAddress
      (work.balance bc tx.fromAddress - (tx.amount + tx.fee))
    nonces := work.nonces.insert tx.fromAddress (wrapAdd64 (work.nonce bc tx.fromAddress) 1) }

theorem checkTransaction_native (plain : env.wire.tokenOp tx.data = none)
    (ordinary : tx.isSystemTx env.wire = false) :
    bc.checkTransaction env work tx = .ok next ↔
      (tx.fromAddress, tx.nonce) ∉ work.seen ∧
        tx.validate env.wire (work.nonce bc tx.fromAddress) bc.chainId = .ok () ∧
        tx.amount + tx.fee ≤ u64Max ∧ tx.amount + tx.fee ≤ work.balance bc tx.fromAddress ∧
        next = work.after bc tx := by
  unfold checkTransaction
  rw [if_neg (by simp [ordinary])]
  constructor
  · intro passed
    obtain ⟨_, fresh, passed⟩ := except_bind_ok.mp passed
    obtain ⟨_, valid, passed⟩ := except_bind_ok.mp passed
    split at passed
    · cases passed
    · rename_i needed summed
      obtain ⟨rfl, word⟩ := checkedAdd64_eq_some summed
      obtain ⟨_, covered, passed⟩ := except_bind_ok.mp passed
      simp only [plain] at passed
      cases passed
      exact ⟨by simpa using require_ok.mp fresh, valid, word, by simpa using require_ok.mp covered,
        rfl⟩
  · rintro ⟨fresh, valid, word, covered, rfl⟩
    have summed : checkedAdd64 tx.amount tx.fee = some (tx.amount + tx.fee) := if_pos word
    refine except_bind_ok.mpr ⟨(), require_ok.mpr (by simpa using fresh),
      except_bind_ok.mpr ⟨(), valid, ?_⟩⟩
    simp only [summed, plain]
    exact except_bind_ok.mpr ⟨(), require_ok.mpr (by simpa using covered), rfl⟩

theorem Paired.start : Paired .start := fun _ _ => rfl

theorem Paired.after (paired : Paired work) (bc : Blockchain) (tx : Transaction) :
    Paired (work.after bc tx) := by
  intro a missing
  by_cases same : a = tx.fromAddress
  · subst same
    cases (AList.lookup_insert _).symm.trans missing
  · have absent : work.nonces.lookup a = none := (AList.lookup_insert_ne same).symm.trans missing
    exact (AList.lookup_insert_ne same).trans (paired a absent)

theorem SameFunds.symm {db db' : AccountDB} (funds : SameFunds A db db') : SameFunds A db' db := by
  intro a inside
  obtain ⟨balance, nonce⟩ := funds a inside
  exact ⟨balance.symm, fun positive => (nonce (balance ▸ positive)).symm⟩

theorem not_coinbase (lowercase : ∀ a ∈ A, isCanonical a = true) (inside : tx.fromAddress ∈ A) :
    tx.isCoinbase = false := by
  have other : isCanonical coinbaseAddress = false := by decide
  unfold Transaction.isCoinbase
  rw [beq_eq_false_iff_ne]
  intro same
  have canonical := lowercase _ inside
  rw [same, other] at canonical
  cases canonical

theorem checkTransaction_agrees (lowercase : ∀ a ∈ A, isCanonical a = true)
    (funds : SameFunds A bc.accounts other.accounts) (chain : bc.chainId = other.chainId)
    (paired : Paired work) (native : NativeFrom env.wire A tx)
    (ordinary : tx.isSystemTx env.wire = false)
    (passed : bc.checkTransaction env work tx = .ok next) :
    other.checkTransaction env work tx = .ok next := by
  obtain ⟨inside, plain⟩ := native
  obtain ⟨fresh, valid, word, covered, rfl⟩ := (checkTransaction_native plain ordinary).mp passed
  obtain ⟨balances, nonces⟩ := funds _ inside
  have balance : work.balance bc tx.fromAddress = work.balance other tx.fromAddress := by
    unfold Working.balance
    rw [balances]
  have fee : minTxFee ≤ tx.fee :=
    (Transaction.validate_ok (not_coinbase lowercase inside) ordinary valid).2.2.1
  have nonce : work.nonce bc tx.fromAddress = work.nonce other tx.fromAddress := by
    cases counted : work.nonces.lookup tx.fromAddress with
    | some => simp only [Working.nonce, counted, Option.getD_some]
    | none =>
      have uncounted := paired _ counted
      simp only [Working.balance, uncounted, Option.getD_none] at covered
      have positive : 0 < minTxFee := by decide
      simp only [Working.nonce, counted, Option.getD_none]
      exact nonces (by omega)
  have next : work.after bc tx = work.after other tx := by
    unfold Working.after
    rw [balance, nonce]
  rw [next]
  exact (checkTransaction_native plain ordinary).mpr
    ⟨fresh, nonce ▸ chain ▸ valid, word, balance ▸ covered, rfl⟩

theorem checkTransactions_agree (lowercase : ∀ a ∈ A, isCanonical a = true)
    (funds : SameFunds A bc.accounts other.accounts) (chain : bc.chainId = other.chainId)
    (paired : Paired work) (native : ∀ tx ∈ txs, NativeFrom env.wire A tx)
    (passed : bc.checkTransactions env txs work = .ok done) :
    other.checkTransactions env txs work = .ok done := by
  induction txs generalizing work with
  | nil => exact passed
  | cons tx rest ih =>
    have others : ∀ tx ∈ rest, NativeFrom env.wire A tx :=
      fun tx member => native tx (mem_cons_of_mem _ member)
    unfold checkTransactions at passed ⊢
    cases first : bc.checkTransaction env work tx with
    | error =>
      rw [first] at passed
      cases passed
    | ok =>
      rw [first] at passed
      cases system : tx.isSystemTx env.wire with
      | true =>
        have here : ∀ x : Blockchain, x.checkTransaction env work tx = .ok work := by
          intro x
          unfold checkTransaction
          rw [if_pos system]
        rw [here other]
        cases (here bc).symm.trans first
        exact ih paired others passed
      | false =>
        have head := native tx mem_cons_self
        rw [checkTransaction_agrees lowercase funds chain paired head system first]
        obtain ⟨-, -, -, -, rfl⟩ := (checkTransaction_native head.2 system).mp first
        exact ih (paired.after bc tx) others passed

end

section
variable {env : Platform} {b3 : Bytes → Bytes} {A : Set Address} {U : Set TrieNode}
  {bc other : Blockchain} {tree tree' : TrieTree}

/-- Equal roots: equal balances, equal nonces of the accounts with a balance, and the same
native transactions pass next. -/
theorem root_commits_to_accounts (lib : TrieLibraries env b3 A U)
    (lowercase : ∀ a ∈ A, isCanonical a = true) (run : MirrorRun env b3 A U bc)
    (run' : MirrorRun env b3 A U other) (words : Words bc.accounts)
    (words' : Words other.accounts) (chain : bc.chainId = other.chainId)
    (same : bc.stateTrie.map (·.root) = other.stateTrie.map (·.root)) :
    SameFunds A bc.accounts other.accounts ∧
      ∀ txs, (∀ tx ∈ txs, NativeFrom env.wire A tx) → ∀ done,
        bc.checkTransactions env txs .start = .ok done ↔
          other.checkTransactions env txs .start = .ok done := by
  have funds := accounts_of_root lib lowercase run run' words words' same
  refine ⟨funds, fun txs native done => ⟨fun passed => ?_, fun passed => ?_⟩⟩
  · exact checkTransactions_agree lowercase funds chain .start native passed
  · exact checkTransactions_agree lowercase funds.symm chain.symm .start native passed

end

def passingSubmission : Submission := ⟨1700000002, .peer, passingBlock⟩
def directSubmission : Submission := ⟨1700000001, .peer, directBlock⟩
def idleSubmission : Submission := ⟨1700000002, .peer, idleBlock⟩

def paidStart : Blockchain := writeState paymentPlatform paymentSubmission paymentChain false

def paidChain : Blockchain := rootedState paymentPlatform paymentBlock paidStart fundedTrie

def passedStart : Blockchain := writeState paymentPlatform passingSubmission paidChain false

def passedChain : Blockchain :=
  rootedState paymentPlatform passingBlock passedStart
    (committedTrie paymentPlatform paymentBlock paidStart fundedTrie)

def directStart : Blockchain := writeState paymentPlatform directSubmission paymentChain false

def directChain : Blockchain := rootedState paymentPlatform directBlock directStart fundedTrie

def idleStart : Blockchain := writeState paymentPlatform idleSubmission directChain false

def idleChain : Blockchain :=
  rootedState paymentPlatform idleBlock idleStart
    (committedTrie paymentPlatform directBlock directStart fundedTrie)

def leafOf (key balance nonce : Nat) : TrieTree :=
  .leaf (word256 key) (accountValueBytes balance nonce)

def producerKey : Nat := 0xd6f781065c489e6513f45bc3dab82156055056d393c42f49a4defec22b5ee73f
def thirdTrieKey : Nat := 0x915e9183b1ece9551325a914fa51e669d8b05cbd8c478cb8c2a5baa0adec41ef
def payeeKey : Nat := 0x14b937067d1a21dba5219970cf5e23ca8d1a97105466c63b44877876a03e3bf5

def spentLeaf : TrieTree := .leaf payerKey (accountValueBytes 970000 1)

def paidTree : TrieTree :=
  .branch spentLeaf (.branch (leafOf thirdTrieKey 20000 0) (leafOf producerKey 100005000 0))

def directTree : TrieTree :=
  .branch (.branch (leafOf payeeKey 10000 0) spentLeaf) (leafOf producerKey 100010000 0)

def endTree : TrieTree :=
  .branch (.branch (leafOf payeeKey 10000 0) spentLeaf) (leafOf producerKey 200010000 0)

abbrev SamplePasses : Submission → Blockchain → TrieTree → Prop :=
  PassesListed paymentPlatform paymentNodes paymentTexts paymentAddresses

abbrev sampleTree : Block → Blockchain → TrieTree → TrieTree :=
  listedTree paymentPlatform paymentNodes paymentTexts

theorem histories_pass :
    (sampleTree paymentBlock paidStart fundedTree = paidTree ∧
      SamplePasses passingSubmission paidChain paidTree ∧
      sampleTree passingBlock passedStart paidTree = endTree) ∧
    (SamplePasses directSubmission paymentChain fundedTree ∧
      sampleTree directBlock directStart fundedTree = directTree ∧
      SamplePasses idleSubmission directChain directTree ∧
      sampleTree idleBlock idleStart directTree = endTree) ∧
    (passedChain.accounts.getNonce thirdAccount = 1 ∧
      idleChain.accounts.getNonce thirdAccount = 0 ∧
      passedChain.accounts.getBalance payee = 10000) ∧
    passedChain.chainId = idleChain.chainId ∧
    (∀ row ∈ passedChain.accounts.accounts.pairs,
      row.2.balance ≤ u64Max ∧ row.2.nonce ≤ u64Max) ∧
    ∀ row ∈ idleChain.accounts.accounts.pairs,
      row.2.balance ≤ u64Max ∧ row.2.nonce ≤ u64Max := by
  decide +kernel

abbrev SampleRun : Blockchain → Prop :=
  MirrorRun paymentPlatform (listedBlake3 paymentNodes) {a | a ∈ paymentAddresses}
    (listedNodes paymentNodes paymentTexts)

abbrev sampleAfter (s : Submission) (bc : Blockchain) (t : SentrixTrie) : Blockchain :=
  rootedState paymentPlatform s.block (writeState paymentPlatform s bc false) t

abbrev SampleTree : SentrixTrie → TrieTree → Prop :=
  Represents paymentPlatform.wire (listedBlake3 paymentNodes)
    (listedNodes paymentNodes paymentTexts)

theorem PassesListed.mirrorRun {s : Submission} {bc : Blockchain} {t : SentrixTrie}
    {tree tree' : TrieTree}
    (passes : SamplePasses s bc tree)
    (written : sampleTree s.block (writeState paymentPlatform s bc false) tree = tree')
    (run : SampleRun bc) (had : bc.stateTrie = some t) (rep : SampleTree t tree) :
    Blockchain.submit paymentPlatform s bc = .ok () (sampleAfter s bc t) ∧
      SampleTree
        (committedTrie paymentPlatform s.block (writeState paymentPlatform s bc false) t) tree' ∧
      SampleRun (sampleAfter s bc t) := by
  obtain ⟨ran, rep'⟩ := passes.submit paymentSha paymentLibraries had rep
  subst written
  have fork : reached paymentPlatform.forks.extendedTouchList s.block.index = true :=
    Bool.and_eq_true_iff.mpr ⟨rfl, decide_eq_true (Nat.zero_le _)⟩
  have next := run.block s fork had rep (passes.contained paymentSha)
  rw [finalState_ok ran] at next
  exact ⟨ran, rep', next⟩

structure BothPass (s s' : Submission) (first second : Blockchain) : Prop where
  passes : Blockchain.submit paymentPlatform s paymentChain = .ok () first
  follows : Blockchain.submit paymentPlatform s' first = .ok () second
  run : SampleRun second
  root : second.stateTrie.map (·.root) =
    some (endTree.root (nodeHash paymentPlatform.wire (listedBlake3 paymentNodes)) 256)

theorem two_blocks {s s' : Submission} {mid : TrieTree}
    (passes : SamplePasses s paymentChain fundedTree)
    (written : sampleTree s.block (writeState paymentPlatform s paymentChain false) fundedTree =
      mid)
    (passes' : SamplePasses s' (sampleAfter s paymentChain fundedTrie) mid)
    (written' : sampleTree s'.block (writeState paymentPlatform s'
      (sampleAfter s paymentChain fundedTrie) false) mid = endTree) :
    let first := sampleAfter s paymentChain fundedTrie
    BothPass s s' first (sampleAfter s' first (committedTrie paymentPlatform s.block
      (writeState paymentPlatform s paymentChain false) fundedTrie)) := by
  have start : SampleRun paymentChain := .start rfl represents_funded funded_mirrors
  obtain ⟨ran, rep, run⟩ := passes.mirrorRun written start rfl represents_funded
  obtain ⟨ran', rep', run'⟩ := passes'.mirrorRun written' run rfl rep
  exact ⟨ran, ran', run', congrArg some rep'.root⟩

theorem passed_runs : BothPass paymentSubmission passingSubmission paidChain passedChain :=
  have ⟨written, passes, ended⟩ := histories_pass.1
  two_blocks payment_passes written passes ended

theorem idle_runs : BothPass directSubmission idleSubmission directChain idleChain :=
  have ⟨passes, written, passes', ended⟩ := histories_pass.2.1
  two_blocks passes written passes' ended

/-- The third account has passed on all it had, or has never had anything: the roots are
equal and its nonces are not. -/
theorem nonce_not_committed :
    Blockchain.submit paymentPlatform paymentSubmission paymentChain = .ok () paidChain ∧
      Blockchain.submit paymentPlatform passingSubmission paidChain = .ok () passedChain ∧
      Blockchain.submit paymentPlatform directSubmission paymentChain = .ok () directChain ∧
      Blockchain.submit paymentPlatform idleSubmission directChain = .ok () idleChain ∧
      passedChain.stateTrie.map (·.root) = idleChain.stateTrie.map (·.root) ∧
      passedChain.accounts.getNonce thirdAccount = 1 ∧
      idleChain.accounts.getNonce thirdAccount = 0 := by
  obtain ⟨first, second, -, root⟩ := passed_runs
  obtain ⟨first', second', -, root'⟩ := idle_runs
  obtain ⟨-, -, ⟨spent, unused, -⟩, -⟩ := histories_pass
  exact ⟨first, second, first', second', root.trans root'.symm, spent, unused⟩

theorem words_of_rows {db : AccountDB}
    (rows : ∀ row ∈ db.accounts.pairs, row.2.balance ≤ u64Max ∧ row.2.nonce ≤ u64Max) :
    Words db := by
  intro a
  unfold AccountDB.getBalance AccountDB.getNonce
  cases found : db.accounts.lookup a with
  | none => exact ⟨Nat.zero_le _, Nat.zero_le _⟩
  | some account => exact rows (a, account) (mem_pairs.mpr found)

theorem passed_agrees_with_idle :
    SameFunds {a | a ∈ paymentAddresses} passedChain.accounts idleChain.accounts ∧
      passedChain.accounts.getBalance payee = 10000 := by
  have lowercase : ∀ a ∈ paymentAddresses, isCanonical a = true := by decide
  obtain ⟨-, -, ⟨-, -, paid⟩, chain, rows, rows'⟩ := histories_pass
  obtain ⟨-, -, run, root⟩ := passed_runs
  obtain ⟨-, -, run', root'⟩ := idle_runs
  exact ⟨(root_commits_to_accounts paymentLibraries lowercase run run' (words_of_rows rows)
    (words_of_rows rows') chain (root.trans root'.symm)).1, paid⟩

end Blockchain
end SentrixCore
