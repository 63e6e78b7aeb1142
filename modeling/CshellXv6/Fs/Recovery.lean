import CshellXv6.Fs.Log

/-! # Crashes

What a disk stands for is what recovery would make of it: `recovered`. Seen
this way, a commit is a single step. The copies to the log change nothing, since
no header mentions them; the write of the header makes all the changes of the
transaction at once; installing and clearing change nothing again. Recovery
itself changes nothing at any of its writes, so it may be interrupted as often
as one likes.
-/

namespace CshellXv6.Fs

open Lib Function List

section

variable {start k j i b : Nat} {d target d' target' : Disk} {s : LogState} {lh : List Nat}
  {hb : Block} {w : Nat × Block} {p : Nat × Nat} {ws : List (Nat × Block)}

/-! ## The header block -/

lemma word_head_of_le (h : j ≤ k) :
    word ((lh.zipIdx k).foldl (fun hb p => setWord hb (1 + p.2) p.1) hb) j = word hb j := by
  induction lh generalizing hb k with
  | nil => rfl
  | cons b lh ih =>
    rw [zipIdx_cons, foldl_cons, ih (by omega)]
    exact word_setWord_of_ne hb b (by omega)

lemma word_head (hroom : k + lh.length < 256) (hi : i < lh.length) :
    word ((lh.zipIdx k).foldl (fun hb p => setWord hb (1 + p.2) p.1) hb) (1 + (k + i)) =
      lh[i] % 2 ^ 32 := by
  induction lh generalizing hb k i with
  | nil => cases hi
  | cons b lh ih =>
    rw [length_cons] at hroom hi
    rw [zipIdx_cons, foldl_cons]
    cases i with
    | zero =>
      rw [word_head_of_le (by omega)]
      exact word_setWord_self hb b (by omega)
    | succ i =>
      have hnext : 1 + (k + (i + 1)) = 1 + (k + 1 + i) := by omega
      rw [hnext, getElem_cons_succ]
      exact ih (by omega) (by omega)

/-- The header is read back as it was written. -/
lemma getHead_putHead (hb : Block) (hlen : lh.length ≤ logBlocks) (hfits : ∀ b ∈ lh, b < 2 ^ 32) :
    getHead (putHead lh hb) = lh := by
  have hroom : lh.length ≤ 30 := hlen
  have hword : word (putHead lh hb) 0 = lh.length % 2 ^ 32 := by
    rw [putHead, word_head_of_le (Nat.le_refl 0)]
    exact word_setWord_self hb _ (by omega)
  have hn : (toInt (word (putHead lh hb) 0)).toNat = lh.length := by
    rw [hword, Nat.mod_eq_of_lt (by omega), toInt_of_lt (by omega), Int.toNat_natCast]
  rw [getHead, hn]
  apply ext_getElem
  · simp
  intro i hi hi'
  have hblock : word (putHead lh hb) (1 + (0 + i)) = lh[i] % 2 ^ 32 :=
    word_head (by omega) hi'
  rw [Nat.zero_add, Nat.mod_eq_of_lt (hfits _ (getElem_mem hi'))] at hblock
  rw [getElem_map, getElem_range, hblock]

/-! ## What the functions write -/

/-- Copying blocks one by one, when none is overwritten before it is read. -/
lemma copy_spec (src dst : Nat × Nat → Nat) (ps : List (Nat × Nat)) (s : LogState)
    (h : ∀ p ∈ ps, ∀ q ∈ ps, src p ≠ dst q) :
    ps.foldl (fun s p => s.writeBlock (dst p) (s.cache (src p))) s =
      { s with
        cache := applyWrites (ps.map fun p => (dst p, s.cache (src p))) s.cache
        writes := s.writes ++ ps.map fun p => (dst p, s.cache (src p)) } := by
  induction ps generalizing s with
  | nil => simp
  | cons p ps ih =>
    have hsame : ∀ q ∈ ps, update s.cache (dst p) (s.cache (src p)) (src q) =
        s.cache (src q) := by
      intro q hq
      exact update_of_ne (h q (mem_cons_of_mem p hq) p mem_cons_self) _ _
    rw [foldl_cons, ih]
    · simp only [LogState.writeBlock, LogState.bwrite, map_cons, applyWrites_cons,
        update_self, append_assoc, singleton_append]
      rw [map_congr_left fun q hq => by rw [hsame q hq]]
    · intro q hq r hr
      exact h q (mem_cons_of_mem p hq) r (mem_cons_of_mem p hr)

variable (start d) in
/-- The writes of `install_trans`, after a header has been read from the disk. -/
def installs : List (Nat × Block) :=
  (getHead (d start)).zipIdx.map fun p => (p.1, d (start + p.2 + 1))

variable (start d) in
/-- The writes of a recovery. -/
def recoveryWrites : List (Nat × Block) := installs start d ++ [(start, putHead [] (d start))]

variable (start d) in
/-- What the disk stands for. -/
def recovered : Disk := applyWrites (installs start d) d

variable (start d) in
/-- The header names blocks outside the log, and no more than there are copies
in the log. -/
structure WellFormed : Prop where
  bounded : (getHead (d start)).length ≤ logBlocks
  home : ∀ b ∈ getHead (d start), Home start b

variable (start d) in
/-- The disk is well-formed and stands for the blocks `target`. -/
structure Holds (target : Disk) : Prop where
  wellFormed : WellFormed start d
  target : ∀ b, Home start b → recovered start d b = target b

lemma not_home_copy (h : i < logBlocks) : ¬ Home start (start + i + 1) := by
  unfold Home
  omega

lemma not_home_start : ¬ Home start start := by
  unfold Home
  omega

/-- Every block that is installed is outside the log. -/
lemma WellFormed.home_of_mem (h : WellFormed start d)
    (hw : w ∈ installs start d) : Home start w.1 := by
  obtain ⟨p, hp, rfl⟩ := mem_map.mp hw
  exact h.home p.1 (fst_mem_of_mem_zipIdx hp)

lemma lt_of_mem_zipIdx (h : p ∈ lh.zipIdx) : p.2 < lh.length := by
  obtain ⟨b, i⟩ := p
  exact snd_lt_of_mem_zipIdx h

/-- `install_trans` with a header of blocks outside the log. -/
lemma installTrans_eq (hlen : s.lh.length ≤ logBlocks) (hhome : ∀ b ∈ s.lh, Home start b) :
    installTrans start s =
      { s with
        cache := applyWrites (s.lh.zipIdx.map fun p => (p.1, s.cache (start + p.2 + 1))) s.cache
        writes := s.writes ++ s.lh.zipIdx.map fun p => (p.1, s.cache (start + p.2 + 1)) } := by
  refine copy_spec (fun p => start + p.2 + 1) Prod.fst s.lh.zipIdx s ?_
  intro p hp q hq heq
  have hp' := lt_of_mem_zipIdx hp
  have hcopy : ¬ Home start (start + p.2 + 1) := not_home_copy (by omega)
  rw [heq] at hcopy
  exact hcopy <| hhome q.1 (fst_mem_of_mem_zipIdx hq)

lemma writeLog_eq (hlen : s.lh.length ≤ logBlocks) (hhome : ∀ b ∈ s.lh, Home start b) :
    writeLog start s =
      { s with
        cache := applyWrites (s.lh.zipIdx.map fun p => (start + p.2 + 1, s.cache p.1)) s.cache
        writes := s.writes ++ s.lh.zipIdx.map fun p => (start + p.2 + 1, s.cache p.1) } := by
  refine copy_spec Prod.fst (fun p => start + p.2 + 1) s.lh.zipIdx s ?_
  intro p hp q hq heq
  have hq' := lt_of_mem_zipIdx hq
  have hcopy : ¬ Home start (start + q.2 + 1) := not_home_copy (by omega)
  rw [← heq] at hcopy
  exact hcopy <| hhome p.1 (fst_mem_of_mem_zipIdx hp)

/-- Installing what the header says, and clearing the header. -/
lemma clear_eq (hd : s.cache = d) (hlh : s.lh = getHead (d start)) (hwf : WellFormed start d) :
    writeHead start { installTrans start s with lh := [] } =
      ⟨applyWrites (recoveryWrites start d) d, [], s.writes ++ recoveryWrites start d⟩ := by
  subst hd
  have hsame : applyWrites (installs start s.cache) s.cache start = s.cache start := by
    apply applyWrites_of_notMem
    intro w hw heq
    exact not_home_start (heq ▸ hwf.home_of_mem hw)
  rw [installTrans_eq (hlh ▸ hwf.bounded) (hlh ▸ hwf.home), hlh]
  simp only [writeHead, LogState.writeBlock, LogState.bwrite, update_self]
  rw [← installs, hsame, recoveryWrites, applyWrites_append, append_assoc]
  rfl

lemma recoverFromLog_eq (hwf : WellFormed start d) :
    recoverFromLog start (boot d) =
      ⟨applyWrites (recoveryWrites start d) d, [], recoveryWrites start d⟩ := by
  have h := clear_eq (s := readHead start (boot d)) rfl rfl hwf
  rw [recoverFromLog, h]
  simp only [readHead, boot, nil_append]

/-! ## Recovery -/

/-- What is written in a recovery is in the log. -/
lemma installs_congr (hwf : WellFormed start d)
    (h : ∀ b, ¬ Home start b → d' b = d b) : installs start d' = installs start d := by
  rw [installs, installs, h start not_home_start]
  refine map_congr_left ?_
  intro p hp
  have hp' := lt_of_mem_zipIdx hp
  rw [h _ (not_home_copy (Nat.lt_of_lt_of_le hp' hwf.bounded))]

/-- Writes outside the log leave it as it is. -/
lemma applyWrites_log (h : ∀ w ∈ ws, Home start w.1)
    (hb : ¬ Home start b) : applyWrites ws d b = d b := by
  apply applyWrites_of_notMem
  rintro w hw rfl
  exact hb (h w hw)

/-- Part of the installation changes nothing. -/
lemma Holds.install (h : Holds start d target) (k : Nat) :
    Holds start (applyWrites ((installs start d).take k) d) target := by
  have hhome : ∀ w ∈ (installs start d).take k, Home start w.1 := fun w hw =>
    h.wellFormed.home_of_mem (mem_of_mem_take hw)
  have hhead : applyWrites ((installs start d).take k) d start = d start :=
    applyWrites_log hhome not_home_start
  constructor
  · constructor
    · rw [hhead]
      exact h.wellFormed.bounded
    · rw [hhead]
      exact h.wellFormed.home
  · intro b hb
    rw [recovered, installs_congr h.wellFormed fun b hb => applyWrites_log hhome hb,
      applyWrites_take_again]
    exact h.target b hb

/-- A disk with an empty header stands for itself. -/
lemma recovered_of_clean (h : getHead (d start) = []) : recovered start d = d := by
  rw [recovered, installs, h]
  rfl

lemma Holds.of_clean (h : getHead (d start) = []) : Holds start d d := by
  constructor
  · constructor
    all_goals simp [h]
  · intro b _
    rw [recovered_of_clean h]

lemma getHead_clear (hb : Block) : getHead (putHead [] hb) = [] :=
  getHead_putHead hb (Nat.zero_le _) (by simp)

/-- After a whole recovery the header is empty, and the blocks are what the
disk stood for. -/
lemma Holds.recovery (h : Holds start d target) :
    getHead (applyWrites (recoveryWrites start d) d start) = [] ∧
    ∀ b, Home start b → applyWrites (recoveryWrites start d) d b = target b := by
  rw [recoveryWrites, applyWrites_append]
  constructor
  · simp only [applyWrites_cons, applyWrites_nil, update_self, getHead_clear]
  intro b hb
  have hne : b ≠ start := by
    rintro rfl
    exact not_home_start hb
  simp only [applyWrites_cons, applyWrites_nil, update_of_ne hne]
  exact h.target b hb

lemma Holds.congr (h : Holds start d target)
    (heq : ∀ b, Home start b → target b = target' b) : Holds start d target' :=
  ⟨h.wellFormed, fun b hb => (h.target b hb).trans (heq b hb)⟩

/-- Recovery may be interrupted at any of its writes. -/
lemma Holds.interrupted_once (h : Holds start d target) (k : Nat) :
    Holds start (applyWrites ((recoveryWrites start d).take k) d) target := by
  by_cases hk : k ≤ (installs start d).length
  · rw [recoveryWrites, take_append_of_le_length hk]
    exact h.install k
  have hall : (recoveryWrites start d).take k = recoveryWrites start d := by
    apply take_of_length_le
    simp only [recoveryWrites, length_append, length_singleton]
    omega
  rw [hall]
  exact (Holds.of_clean h.recovery.1).congr h.recovery.2

lemma Holds.interrupted (h : Holds start d target) (ks : List Nat) :
    Holds start (interrupted start ks d) target := by
  induction ks generalizing d with
  | nil => exact h
  | cons k ks ih =>
    have hk : Holds start ((recoverFromLog start (boot d)).crash d k) target := by
      rw [LogState.crash, recoverFromLog_eq h.wellFormed]
      exact h.interrupted_once k
    exact ih hk

/-! ## Commits -/

variable (start) in
/-- The copies in the log of a transaction that changes the blocks `lh` to what
`c` has in them. -/
def copies (lh : List Nat) (c : Disk) : List (Nat × Block) :=
  lh.zipIdx.map fun p => (start + p.2 + 1, c p.1)

variable {t : Transaction start} {c : Disk} {ts : List (Transaction start)}

def Transaction.blocks (t : Transaction start) : List Nat := t.writes.map Prod.fst

lemma Transaction.length_blocks : t.blocks.length ≤ logBlocks := by
  rw [Transaction.blocks, length_map]
  exact t.bounded

lemma Transaction.home_blocks : ∀ b ∈ t.blocks, Home start b := by
  intro b hb
  obtain ⟨w, hw, rfl⟩ := mem_map.mp hb
  exact t.home w hw

lemma Transaction.fits_blocks : ∀ b ∈ t.blocks, b < 2 ^ 32 := by
  intro b hb
  obtain ⟨w, hw, rfl⟩ := mem_map.mp hb
  exact t.fits w hw

variable (t d) in
/-- The writes of a commit up to its header. -/
def logWrites : List (Nat × Block) :=
  copies start t.blocks (applyWrites t.writes d) ++ [(start, putHead t.blocks (d start))]

/-- The copies are written to the blocks of the log behind the header. -/
lemma of_mem_copies (hlen : lh.length ≤ logBlocks)
    (hw : w ∈ copies start lh c) : ¬ Home start w.1 ∧ w.1 ≠ start := by
  obtain ⟨p, hp, rfl⟩ := mem_map.mp hw
  have hp' := lt_of_mem_zipIdx hp
  exact ⟨not_home_copy (by omega), by dsimp only; omega⟩

/-- Each copy is found in its block. -/
lemma applyWrites_copies (hp : p ∈ lh.zipIdx) :
    applyWrites (copies start lh c) d (start + p.2 + 1) = c p.1 := by
  have hnodup : ((copies start lh c).map Prod.fst).Nodup := by
    have hkeys : (copies start lh c).map Prod.fst =
        (lh.zipIdx.map Prod.snd).map fun i => start + i + 1 := by
      rw [copies, map_map, map_map]
      rfl
    rw [hkeys, zipIdx_map_snd]
    refine List.Nodup.map ?_ nodup_range'
    intro i j hij
    dsimp only at hij
    omega
  exact applyWrites_of_mem (w := (start + p.2 + 1, c p.1)) hnodup (mem_map.mpr ⟨p, hp, rfl⟩)

lemma getHead_logWrites : getHead (applyWrites (logWrites d t) d start) = t.blocks := by
  rw [logWrites, applyWrites_append, applyWrites_cons, applyWrites_nil, update_self]
  exact getHead_putHead _ t.length_blocks t.fits_blocks

/-- With the header on the disk, the changes of the transaction are to be
installed. -/
lemma installs_logWrites : installs start (applyWrites (logWrites d t) d) = t.writes := by
  have hcopy : ∀ p ∈ t.blocks.zipIdx, applyWrites (logWrites d t) d (start + p.2 + 1) =
      applyWrites t.writes d p.1 := by
    intro p hp
    rw [logWrites, applyWrites_append, applyWrites_cons, applyWrites_nil, update_of_ne (by omega)]
    exact applyWrites_copies hp
  calc installs start (applyWrites (logWrites d t) d)
      = t.blocks.zipIdx.map fun p => (p.1, applyWrites t.writes d p.1) := by
        rw [installs, getHead_logWrites]
        exact map_congr_left fun p hp => by rw [hcopy p hp]
    _ = t.blocks.map fun b => (b, applyWrites t.writes d b) := by
        conv_rhs => rw [← zipIdx_map_fst 0 t.blocks, map_map]
        rfl
    _ = t.writes := by
        rw [Transaction.blocks, map_map]
        refine (map_congr_left ?_).trans (map_id _)
        intro w hw
        simp only [comp_apply, applyWrites_of_mem t.distinct hw]
        rfl

/-- With its header on the disk, the transaction has happened. -/
lemma Holds.logWrites : Holds start (applyWrites (logWrites d t) d) (applyWrites t.writes d) := by
  constructor
  · constructor
    · rw [getHead_logWrites]
      exact t.length_blocks
    · rw [getHead_logWrites]
      exact t.home_blocks
  intro b hb
  rw [recovered, installs_logWrites]
  apply applyWrites_congr
  right
  apply applyWrites_of_notMem
  intro w hw heq
  rcases mem_append.mp hw with hw | hw
  · exact (of_mem_copies t.length_blocks hw).1 (heq ▸ hb)
  · cases mem_singleton.mp hw
    exact not_home_start (heq ▸ hb)

/-- Before that, nothing has happened. -/
lemma Holds.copies (hclean : getHead (d start) = []) (k : Nat) :
    Holds start (applyWrites ((copies start t.blocks (applyWrites t.writes d)).take k) d) d := by
  have hsame : ∀ b, Home start b ∨ b = start →
      applyWrites ((Fs.copies start t.blocks (applyWrites t.writes d)).take k) d b = d b := by
    intro b hb
    apply applyWrites_of_notMem
    rintro w hw rfl
    have hw' := of_mem_copies t.length_blocks (mem_of_mem_take hw)
    exact hb.elim hw'.1 hw'.2
  refine (Holds.of_clean ?_).congr fun b hb => hsame b (.inl hb)
  rw [hsame start (.inr rfl)]
  exact hclean

variable (t d) in
/-- The writes of a commit: those up to the header, and then those that a
recovery would make. A transaction without changes writes nothing. -/
def commitWrites : List (Nat × Block) :=
  if t.writes = [] then []
  else logWrites d t ++ recoveryWrites start (applyWrites (logWrites d t) d)

/-- `commit` up to the header. -/
lemma writeHead_writeLog : writeHead start (writeLog start (s.perform t)) =
    ⟨applyWrites (logWrites s.cache t) (applyWrites t.writes s.cache), t.blocks,
      s.writes ++ logWrites s.cache t⟩ := by
  have hstart : applyWrites (copies start t.blocks (applyWrites t.writes s.cache))
      (applyWrites t.writes s.cache) start = s.cache start := by
    rw [applyWrites_of_notMem fun w hw => (of_mem_copies t.length_blocks hw).2]
    exact applyWrites_log t.home not_home_start
  rw [writeLog_eq t.length_blocks t.home_blocks]
  simp only [writeHead, LogState.writeBlock, LogState.bwrite, LogState.perform, update_self]
  rw [← Transaction.blocks, ← copies, hstart, logWrites, applyWrites_append, append_assoc]
  rfl

/-- The buffers differ from the disk only in what is installed, so the rest of
the commit is a recovery. -/
lemma commit_rest : recoveryWrites start
      (applyWrites (logWrites d t) (applyWrites t.writes d)) =
        recoveryWrites start (applyWrites (logWrites d t) d) ∧
    applyWrites (recoveryWrites start (applyWrites (logWrites d t) d))
      (applyWrites (logWrites d t) (applyWrites t.writes d)) =
        applyWrites (recoveryWrites start (applyWrites (logWrites d t) d))
          (applyWrites (logWrites d t) d) := by
  have hlog : ∀ b, ¬ Home start b → applyWrites (logWrites d t) (applyWrites t.writes d) b =
      applyWrites (logWrites d t) d b := fun b hb =>
    applyWrites_congr (.inr (applyWrites_log t.home hb))
  constructor
  · rw [recoveryWrites, recoveryWrites, installs_congr Holds.logWrites.wellFormed hlog,
      hlog start not_home_start]
  funext b
  apply applyWrites_congr
  by_cases hb : ∃ w ∈ t.writes, w.1 = b
  · left
    obtain ⟨w, hw, rfl⟩ := hb
    refine ⟨w, ?_, rfl⟩
    rw [recoveryWrites, installs_logWrites]
    exact mem_append_left _ hw
  right
  apply applyWrites_congr
  right
  apply applyWrites_of_notMem
  intro w hw heq
  exact hb ⟨w, hw, heq⟩

/-- A commit that begins with the buffers as they are on the disk, but for the
changes of the transaction. -/
lemma commit_eq (hcache : s.cache = d) (hlh : s.lh = []) :
    commit start (s.perform t) =
      ⟨applyWrites (commitWrites d t) d, [], s.writes ++ commitWrites d t⟩ := by
  subst hcache
  unfold commitWrites
  by_cases ht : t.writes = []
  · obtain ⟨c, lh, ws⟩ := s
    cases hlh
    simp [commit, LogState.perform, ht]
  have hn : (s.perform t).lh.length > 0 := by
    simpa [LogState.perform] using length_pos_of_ne_nil ht
  have hhead : t.blocks = getHead
      (applyWrites (logWrites s.cache t) (applyWrites t.writes s.cache) start) := by
    rw [applyWrites_congr (.inr (applyWrites_log t.home not_home_start)), getHead_logWrites]
  have hwf : WellFormed start
      (applyWrites (logWrites s.cache t) (applyWrites t.writes s.cache)) := by
    constructor
    · rw [← hhead]
      exact t.length_blocks
    · rw [← hhead]
      exact t.home_blocks
  rw [commit, if_pos hn, writeHead_writeLog, clear_eq rfl hhead hwf, commit_rest.1,
    commit_rest.2, if_neg ht, applyWrites_append, append_assoc]

/-- A commit may be interrupted at any of its writes: the transaction has
happened or not, and it has happened when all writes are made. -/
lemma commit_crash (hclean : getHead (d start) = []) (k : Nat) :
    (k < (commitWrites d t).length ∧ Holds start (applyWrites ((commitWrites d t).take k) d) d) ∨
    Holds start (applyWrites ((commitWrites d t).take k) d) (applyWrites t.writes d) := by
  unfold commitWrites
  split
  next ht =>
    right
    rw [ht, take_nil]
    exact Holds.of_clean hclean
  · by_cases hk : k < (logWrites d t).length
    · left
      have hk' : k ≤ (copies start t.blocks (applyWrites t.writes d)).length := by
        rw [logWrites, length_append, length_singleton] at hk
        omega
      rw [length_append, take_append_of_le_length hk.le, logWrites,
        take_append_of_le_length hk', ← logWrites]
      exact ⟨by omega, Holds.copies hclean k⟩
    · right
      rw [take_append, take_of_length_le (by omega), applyWrites_append]
      exact Holds.logWrites.interrupted_once _

/-- A commit that is not interrupted. -/
lemma commit_done (hclean : getHead (d start) = []) :
    getHead (applyWrites (commitWrites d t) d start) = [] ∧
    ∀ b, Home start b → applyWrites (commitWrites d t) d b = applyWrites t.writes d b := by
  unfold commitWrites
  split
  next ht =>
    rw [ht]
    exact ⟨hclean, fun _ _ => rfl⟩
  · rw [applyWrites_append]
    exact Holds.logWrites.recovery

/-! ## A whole uptime -/

/-- Where the machine is between two transactions: the buffers are as on the
disk, the header is empty, and the disk has the changes of all transactions.
A crash before that leaves the changes of the first `m` of them, those whose
commit has returned among them. -/
structure Uptime (d : Disk) (ts : List (Transaction start)) : Prop where
  cached : (uptime d ts).cache = applyWrites (uptime d ts).writes d
  closed : (uptime d ts).lh = []
  clean : getHead ((uptime d ts).cache start) = []
  contents : ∀ b, Home start b → (uptime d ts).cache b = applyAll ts (recovered start d) b
  crash : ∀ k, ∃ m ≤ ts.length,
    (∀ j ≤ ts.length, (uptime d (ts.take j)).writes.length ≤ k → j ≤ m) ∧
    Holds start ((uptime d ts).crash d k) (applyAll (ts.take m) (recovered start d))

lemma applyAll_nil (d : Disk) : applyAll ([] : List (Transaction start)) d = d := rfl

lemma Uptime.boot (hwf : WellFormed start d) : Uptime d ([] : List (Transaction start)) := by
  have heq : uptime d ([] : List (Transaction start)) =
      ⟨applyWrites (recoveryWrites start d) d, [], recoveryWrites start d⟩ :=
    recoverFromLog_eq hwf
  have hholds : Holds start d (recovered start d) := ⟨hwf, fun _ _ => rfl⟩
  obtain ⟨hclean, hhome⟩ := hholds.recovery
  have hcrash := hholds.interrupted_once
  constructor
  · rw [heq]
  · rw [heq]
  · rw [heq]
    dsimp only
    exact hclean
  · rw [heq]
    simp only [applyAll_nil]
    exact hhome
  intro k
  refine ⟨0, Nat.le_refl 0, fun j hj _ => hj, ?_⟩
  rw [heq, LogState.crash, take_nil, applyAll_nil]
  dsimp only
  exact hcrash k

lemma uptime_append (d : Disk) (ts : List (Transaction start)) (t : Transaction start) :
    uptime d (ts ++ [t]) = commit start ((uptime d ts).perform t) := by
  simp [uptime]

lemma applyAll_append (d : Disk) (ts : List (Transaction start)) (t : Transaction start) :
    applyAll (ts ++ [t]) d = applyWrites t.writes (applyAll ts d) := by
  simp [applyAll]

lemma Uptime.commit (h : Uptime d ts) (t : Transaction start) : Uptime d (ts ++ [t]) := by
  have heq := commit_eq (t := t) h.cached h.closed
  rw [← uptime_append] at heq
  have hclean : getHead (applyWrites (uptime d ts).writes d start) = [] := by
    rw [← h.cached]
    exact h.clean
  have hcontents : ∀ b, Home start b → applyWrites (uptime d ts).writes d b =
      applyAll ts (recovered start d) b := by
    rw [← h.cached]
    exact h.contents
  have hafter : ∀ b, Home start b →
      applyWrites t.writes (applyWrites (uptime d ts).writes d) b =
        applyAll (ts ++ [t]) (recovered start d) b := by
    intro b hb
    rw [applyAll_append]
    exact applyWrites_congr (.inr (hcontents b hb))
  have hlength : (ts ++ [t]).length = ts.length + 1 := by simp
  constructor
  · rw [heq, applyWrites_append]
  · rw [heq]
  · rw [heq]
    exact (commit_done hclean).1
  · intro b hb
    rw [heq]
    exact ((commit_done hclean).2 b hb).trans (hafter b hb)
  intro k
  have hcrash : (uptime d (ts ++ [t])).crash d k = applyWrites
      ((commitWrites (applyWrites (uptime d ts).writes d) t).take (k - (uptime d ts).writes.length))
      (applyWrites ((uptime d ts).writes.take k) d) := by
    rw [LogState.crash, heq, take_append, applyWrites_append]
  by_cases hk : k < (uptime d ts).writes.length
  · -- the crash comes before this commit
    obtain ⟨m, hm, hreturned, hholds⟩ := h.crash k
    refine ⟨m, by omega, ?_, ?_⟩
    · intro j hj hwrites
      by_cases hjt : j ≤ ts.length
      · rw [take_append_of_le_length hjt] at hwrites
        exact hreturned j hjt hwrites
      · rw [take_of_length_le (by omega), heq, length_append] at hwrites
        omega
    · rw [hcrash, Nat.sub_eq_zero_of_le hk.le, take_zero, take_append_of_le_length hm]
      exact hholds
  have hall : (uptime d ts).writes.take k = (uptime d ts).writes :=
    take_of_length_le (by omega)
  rw [hcrash, hall]
  rcases commit_crash (t := t) hclean (k - (uptime d ts).writes.length) with
    ⟨hshort, hold⟩ | hnew
  · refine ⟨ts.length, by omega, ?_, ?_⟩
    · intro j hj hwrites
      by_contra hjt
      rw [take_of_length_le (by omega), heq, length_append] at hwrites
      omega
    · rw [take_left]
      exact hold.congr hcontents
  · refine ⟨ts.length + 1, by omega, fun j hj _ => by omega, ?_⟩
    rw [← hlength, take_length]
    exact hnew.congr hafter

lemma Uptime.of_wellFormed (hwf : WellFormed start d) (ts : List (Transaction start)) :
    Uptime d ts := by
  induction ts using List.reverseRecOn with
  | nil => exact Uptime.boot hwf
  | append_singleton ts t ih => exact ih.commit t

end

/-- Crash atomicity. The machine is started on a disk whose log is well-formed,
runs any transactions, and crashes after any number `k` of its block writes;
then recovery is interrupted any number of times. When it runs to its end at
last, every block outside the log is as after the first `m` transactions,
among them all whose commit had made its last write; and the log is empty. -/
theorem crash_atomic (start : Nat) (d : Disk) (hwf : WellFormed start d)
    (ts : List (Transaction start)) (k : Nat) (ks : List Nat) :
    ∃ m ≤ ts.length, (∀ j ≤ ts.length, (uptime d (ts.take j)).writes.length ≤ k → j ≤ m) ∧
      (∀ b, Home start b →
        recovery start (interrupted start ks ((uptime d ts).crash d k)) b =
          applyAll (ts.take m) (recovered start d) b) ∧
      getHead (recovery start (interrupted start ks ((uptime d ts).crash d k)) start) = [] := by
  obtain ⟨m, hm, hreturned, hholds⟩ := (Uptime.of_wellFormed hwf ts).crash k
  have hagain := hholds.interrupted ks
  refine ⟨m, hm, hreturned, ?_⟩
  rw [recovery, recoverFromLog_eq hagain.wellFormed]
  exact ⟨hagain.recovery.2, hagain.recovery.1⟩

/-- A disk of zeros has an empty log. -/
lemma getHead_zero : getHead (Bytes.zero : Block) = [] := by
  simp [getHead, word, Bytes.load_zero, toInt]

/-- A transaction that fills block 50 with ones. -/
def fillOne : Transaction 2 where
  writes := [(50, fun _ => 1)]
  distinct := by decide
  bounded := by decide
  home := by decide
  fits := by decide

theorem crash_atomic_fill :
    ∃ m ≤ 1, ∀ b, Home 2 b →
      recovery 2 (interrupted 2 [1] ((uptime (fun _ => Bytes.zero) [fillOne]).crash
        (fun _ => Bytes.zero) 3)) b =
      applyAll ([fillOne].take m) (fun _ => Bytes.zero) b := by
  have hwf : WellFormed 2 fun _ => Bytes.zero :=
    (@Holds.of_clean 2 (fun _ => Bytes.zero) getHead_zero).wellFormed
  have hrecovered : recovered 2 (fun _ => Bytes.zero) = fun _ => Bytes.zero :=
    @recovered_of_clean 2 (fun _ => Bytes.zero) getHead_zero
  obtain ⟨m, hm, -, hhome, -⟩ := crash_atomic 2 (fun _ => Bytes.zero) hwf [fillOne] 3 [1]
  rw [hrecovered] at hhome
  exact ⟨m, hm, hhome⟩

end CshellXv6.Fs
