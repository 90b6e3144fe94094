/-
# `Main` — the dispatches of `main`

`main` chooses by the hash of a string: the option an environment variable
sets, the level of the log, the program to run.  For the last of the three it
looks the string itself up before.

`dispatches_iff` says for which strings the first two choose by the string:
those that are no second preimage of a label.  There are such for every string
of two characters or more (`second_preimage`), though none that differs in one
character only (`getHash_substitute_iff`).
-/
import SravzBackend.Lib.HashSwitch
import SravzBackend.Text

namespace SravzBackend.Main

/-- The characters of a `std::string`; `char` is signed. -/
abbrev Chars := List (BitVec 8)

/-- An ASCII text. -/
def chars (text : Str) : Chars := text.map fun c => BitVec.ofNat 8 c.toNat

/-- `get_hash`, of the characters up to the first NUL. -/
def getHash : Chars → BitVec 64
  | [] => 5381
  | c :: str => if c = 0 then 5381 else (getHash str * 33) ^^^ c.signExtend 64

/-! ## The three of them -/

def environmentCases : List (Chars × Str) :=
  [(chars "REDIS_HOST".toList, "redis_host".toList),
    (chars "REDIS_PORT".toList, "redis_port".toList),
    (chars "REDIS_PASSWORD".toList, "redis_password".toList),
    (chars "JWT_ACCESS_TOKEN_SECRET".toList, "JWT_ACCESS_TOKEN_SECRET".toList),
    (chars "DisableJWTTokenValidation".toList, "DisableJWTTokenValidation".toList)]

/-- The option that an environment variable sets; none has the empty name. -/
def environmentMapper (envVar : Chars) : Str :=
  (HashSwitch.select getHash environmentCases envVar).getD []

inductive Severity where
  | debug
  | info
  | warning
  | error
deriving DecidableEq

def logLevelCases : List (Chars × Severity) :=
  [(chars "debug".toList, .debug), (chars "info".toList, .info),
    (chars "warning".toList, .warning), (chars "error".toList, .error)]

/-- The filter that is set; without one `main` prints that the level is not
supported, and returns 1. -/
def logLevel (level : Chars) : Option Severity := HashSwitch.select getHash logLevelCases level

inductive SubProgram where
  | wsVendor
  | redisUploader
  | webserver
deriving DecidableEq

def subProgramCases : List (Chars × SubProgram) :=
  [(chars "ws-vendor".toList, .wsVendor), (chars "redis-uploader".toList, .redisUploader),
    (chars "webserver".toList, .webserver)]

def subProgramOptions : List Chars :=
  [chars "ws-vendor".toList, chars "redis-uploader".toList, chars "webserver".toList]

/-- The program that is run, if its name is one of the options. -/
def subProgram (name : Chars) : Option SubProgram :=
  if subProgramOptions.contains name then HashSwitch.select getHash subProgramCases name else none

/-! ## When the string is what is chosen by -/

/-- Each variable sets its own option, no other sets any, each level has its
own filter, and no other is accepted. -/
structure Dispatches (s : Chars) : Prop where
  environment : ∀ c ∈ environmentCases, environmentMapper s = c.2 ↔ s = c.1
  otherwise : (∀ c ∈ environmentCases, s ≠ c.1) → environmentMapper s = []
  logLevel : ∀ c ∈ logLevelCases, logLevel s = some c.2 ↔ s = c.1
  accepted : (Main.logLevel s).isSome ↔ ∃ c ∈ logLevelCases, s = c.1

/-- The names of the variables and of the levels. -/
def labels : List Chars := environmentCases.map Prod.fst ++ logLevelCases.map Prod.fst

/-- It is not the string, but its hash is that of the string. -/
def SecondPreimage (s label : Chars) : Prop := s ≠ label ∧ getHash s = getHash label

theorem environment_labels : (environmentCases.map (getHash ∘ Prod.fst)).Nodup := by
  decide +kernel

theorem logLevel_labels : (logLevelCases.map (getHash ∘ Prod.fst)).Nodup := by
  decide +kernel

theorem environmentMapper_eq_iff {s : Chars} {c : Chars × Str} (hc : c ∈ environmentCases) :
    environmentMapper s = c.2 ↔ HashSwitch.select getHash environmentCases s = some c.2 := by
  have hname : ∀ c ∈ environmentCases, c.2 ≠ [] := by
    decide +kernel
  unfold environmentMapper
  cases hselect : HashSwitch.select getHash environmentCases s with
  | none => exact iff_of_false (hname c hc).symm (Option.some_ne_none c.2).symm
  | some name => exact Option.some_inj.symm

/-- **The strings by which the two dispatches choose are those that are no
second preimage of one of their labels.** -/
theorem dispatches_iff (s : Chars) :
    Dispatches s ↔ ∀ label ∈ labels, ¬ SecondPreimage s label := by
  have henvironment := HashSwitch.exact_iff (k := s) environment_labels (by decide +kernel)
  have hlogLevel := HashSwitch.exact_iff (k := s) logLevel_labels (by decide +kernel)
  have hlabels : (∀ label ∈ labels, ¬ SecondPreimage s label) ↔
      (∀ c ∈ environmentCases, getHash s = getHash c.1 → s = c.1) ∧
        ∀ c ∈ logLevelCases, getHash s = getHash c.1 → s = c.1 := by
    have hone : ∀ label, ¬ SecondPreimage s label ↔ (getHash s = getHash label → s = label) := by
      intro label
      rw [SecondPreimage, not_and, not_imp_not]
    simp only [labels, List.forall_mem_append, List.forall_mem_map, hone]
  rw [hlabels, ← henvironment, ← hlogLevel]
  constructor
  · intro h
    refine ⟨fun c hc => ?_, h.logLevel⟩
    rw [← environmentMapper_eq_iff hc]
    exact h.environment c hc
  · rintro ⟨henv, hlevel⟩
    refine ⟨?_, ?_, hlevel, ?_⟩
    · intro c hc
      rw [environmentMapper_eq_iff hc]
      exact henv c hc
    · intro hno
      have hnone : HashSwitch.select getHash environmentCases s = none := by
        refine Option.eq_none_iff_forall_ne_some.mpr fun name hname => ?_
        obtain ⟨c, hc, _, rfl⟩ := HashSwitch.mem_of_select hname
        exact hno c hc ((henv c hc).mp hname)
      rw [environmentMapper, hnone]
      rfl
    · constructor
      · intro hsome
        obtain ⟨level, hselect⟩ := Option.isSome_iff_exists.mp hsome
        obtain ⟨c, hc, _, rfl⟩ := HashSwitch.mem_of_select hselect
        exact ⟨c, hc, (hlevel c hc).mp hselect⟩
      · rintro ⟨c, hc, hs⟩
        exact Option.isSome_iff_exists.mpr ⟨c.2, (hlevel c hc).mpr hs⟩

/-- A variable that is not among the five sets the host of Redis, and a level
that is not among the four is accepted. -/
theorem misspelt_accepted :
    environmentMapper (chars "REDIS_HOpW".toList) = "redis_host".toList ∧
      logLevel (chars "inGn".toList) = some .info ∧
      ¬ Dispatches (chars "REDIS_HOpW".toList) ∧ ¬ Dispatches (chars "inGn".toList) := by
  have hhost : environmentMapper (chars "REDIS_HOpW".toList) = "redis_host".toList := by
    decide +kernel
  have hinfo : logLevel (chars "inGn".toList) = some .info := by
    decide +kernel
  refine ⟨hhost, hinfo, ?_, ?_⟩
  · intro h
    have heq := (h.environment _ List.mem_cons_self).mp hhost
    exact absurd heq (by decide +kernel)
  · intro h
    have heq := (h.logLevel (chars "info".toList, .info) (by decide +kernel)).mp hinfo
    exact absurd heq (by decide +kernel)

/-- What looking the string up first comes to: each program has its own name,
whatever else hashes like it. -/
theorem subProgram_iff (name : Chars) :
    ∀ c ∈ subProgramCases, subProgram name = some c.2 ↔ name = c.1 := by
  have hlabels : (subProgramCases.map (getHash ∘ Prod.fst)).Nodup := by
    decide +kernel
  intro c hc
  unfold subProgram
  split
  · next hname =>
      have hmem : name ∈ subProgramCases.map Prod.fst := List.contains_iff_mem.mp hname
      exact (HashSwitch.exact_iff hlabels (by decide +kernel)).mpr
        (HashSwitch.eq_of_label hlabels hmem) c hc
  · next hname =>
      refine iff_of_false (Option.some_ne_none c.2).symm ?_
      rintro rfl
      exact hname (List.contains_iff_mem.mpr (List.mem_map_of_mem hc))

/-! ## Strings that hash the same -/

theorem getHash_cons {c : BitVec 8} (hc : c ≠ 0) (s : Chars) :
    getHash (c :: s) = (getHash s * 33) ^^^ c.signExtend 64 :=
  if_neg hc

/-- 33 is odd. -/
theorem mul_33_inj {x y : BitVec 64} : x * 33 = y * 33 ↔ x = y := by
  constructor
  · intro h
    have hinverse : (33 : BitVec 64) * 0x0f83e0f83e0f83e1 = 1#64 := by
      decide
    have hmul : x * 33 * 0x0f83e0f83e0f83e1 = y * 33 * 0x0f83e0f83e0f83e1 :=
      congrArg (· * 0x0f83e0f83e0f83e1) h
    rw [BitVec.mul_assoc, BitVec.mul_assoc, hinverse] at hmul
    rwa [BitVec.mul_one, BitVec.mul_one] at hmul
  · exact congrArg (· * 33)

theorem signExtend_inj {c c' : BitVec 8} : c.signExtend 64 = c'.signExtend 64 ↔ c = c' := by
  constructor
  · intro h
    have hint := congrArg BitVec.toInt h
    rw [BitVec.toInt_signExtend_of_le (by decide), BitVec.toInt_signExtend_of_le (by decide)]
      at hint
    exact BitVec.eq_of_toInt_eq hint
  · exact congrArg (BitVec.signExtend 64)

/-- The hash is taken from the end, so a prefix makes no difference. -/
theorem getHash_append_iff {p s t : Chars} (hp : 0 ∉ p) :
    getHash (p ++ s) = getHash (p ++ t) ↔ getHash s = getHash t := by
  induction p with
  | nil => exact Iff.rfl
  | cons c p ih =>
      obtain ⟨hc, hp⟩ := not_or.mp (mt List.mem_cons.mpr hp)
      rw [List.cons_append, List.cons_append, getHash_cons (Ne.symm hc),
        getHash_cons (Ne.symm hc), BitVec.xor_left_inj, mul_33_inj, ih hp]

/-- No string hashes like another that differs from it in one character. -/
theorem getHash_substitute_iff {p s : Chars} {c c' : BitVec 8} (hp : 0 ∉ p) (hc : c ≠ 0)
    (hc' : c' ≠ 0) : getHash (p ++ c :: s) = getHash (p ++ c' :: s) ↔ c = c' := by
  rw [getHash_append_iff hp, getHash_cons hc, getHash_cons hc', BitVec.xor_right_inj,
    signExtend_inj]

/-! ## Every string has a second preimage -/

/-- `getHash [c] * 33`, of the character with code `n`, as a number. -/
def lastTimes33 (n : Nat) : Nat :=
  (177573 ^^^ (if 128 ≤ n then n + 18446744073709551360 else n)) * 33 % 18446744073709551616

/-- The number is that of an extended character. -/
def Narrow (n : Nat) : Prop := n < 128 ∨ 18446744073709551488 ≤ n

instance (n : Nat) : Decidable (Narrow n) := instDecidableOr

/-- The character with code `m` may stand for the last one, with code `n`, if
the one before it changes, too. -/
def Partner (n m : Nat) : Prop :=
  (m < 256 ∧ m ≠ 0 ∧ m ≠ n) ∧ Narrow (lastTimes33 n ^^^ lastTimes33 m)

instance (n m : Nat) : Decidable (Partner n m) := instDecidableAnd

/-- Codes that are near to `n` where the recursion starts, and their
complements. -/
def near (n : Nat) : List Nat :=
  [1, 2, 254, 255].flatMap fun d =>
    [((165 ^^^ n) + d) % 256 ^^^ 165, 255 ^^^ ((165 ^^^ n) + d) % 256 ^^^ 165]

theorem two_partners : ∀ n < 256, n ≠ 0 →
    ∃ m ∈ near n, Partner n m ∧ ∃ m' ∈ near n, Partner n m' ∧ m ≠ m' := by
  decide +kernel

theorem toNat_signExtend (c : BitVec 8) :
    (c.signExtend 64).toNat = if 128 ≤ c.toNat then c.toNat + 18446744073709551360 else c.toNat := by
  have hwidth : (c.setWidth 64).toNat = c.toNat := by
    rw [BitVec.toNat_setWidth]
    omega
  rw [BitVec.toNat_signExtend, hwidth, BitVec.msb_eq_decide]
  by_cases h : 128 ≤ c.toNat
  · rw [if_pos h, if_pos (decide_eq_true h)]
  · rw [if_neg h, if_neg (mt of_decide_eq_true h)]
    rfl

theorem toNat_last {c : BitVec 8} (hc : c ≠ 0) : (getHash [c] * 33).toNat = lastTimes33 c.toNat := by
  have hstart : (getHash [] * 33).toNat = 177573 := by
    decide
  rw [getHash_cons hc, BitVec.toNat_mul, BitVec.toNat_xor, hstart, toNat_signExtend]
  rfl

theorem exists_of_narrow {d : BitVec 64} (h : Narrow d.toNat) :
    ∃ c : BitVec 8, c.signExtend 64 = d := by
  refine ⟨d.setWidth 8, BitVec.eq_of_toNat_eq ?_⟩
  have hlt := d.isLt
  rw [toNat_signExtend, BitVec.toNat_setWidth]
  unfold Narrow at h
  split <;> omega

/-- What a partner of the last character is good for. -/
theorem exists_of_partner {b : BitVec 8} (hb : b ≠ 0) {m : Nat} (h : Partner b.toNat m) :
    ∃ u d : BitVec 8, u.toNat = m ∧ u ≠ 0 ∧ u ≠ b ∧
      d.signExtend 64 = getHash [b] * 33 ^^^ getHash [u] * 33 := by
  obtain ⟨⟨hlt, hzero, hne⟩, hnarrow⟩ := h
  have hm : (BitVec.ofNat 8 m).toNat = m := by
    rw [BitVec.toNat_ofNat]
    exact Nat.mod_eq_of_lt hlt
  have hu : BitVec.ofNat 8 m ≠ 0 := fun heq => hzero (hm.symm.trans (congrArg BitVec.toNat heq))
  have hub : BitVec.ofNat 8 m ≠ b := fun heq => hne (hm.symm.trans (congrArg BitVec.toNat heq))
  obtain ⟨d, hd⟩ := exists_of_narrow (d := getHash [b] * 33 ^^^ getHash [BitVec.ofNat 8 m] * 33) (by
    rwa [BitVec.toNat_xor, toNat_last hb, toNat_last hu, hm])
  exact ⟨_, d, hm, hu, hub, hd⟩

/-- The character before the last makes up for the difference. -/
theorem getHash_pair {a b u d : BitVec 8} (ha : a ≠ 0) (hne : a ≠ d)
    (hd : d.signExtend 64 = getHash [b] * 33 ^^^ getHash [u] * 33) :
    a ^^^ d ≠ 0 ∧ getHash [a ^^^ d, u] = getHash [a, b] := by
  have hzero : a ^^^ d ≠ 0 := mt BitVec.xor_eq_zero_iff.mp hne
  refine ⟨hzero, ?_⟩
  rw [getHash_cons hzero, getHash_cons ha, BitVec.signExtend_xor, hd,
    BitVec.xor_comm (a.signExtend 64), ← BitVec.xor_assoc,
    BitVec.xor_comm (getHash [b] * 33), ← BitVec.xor_assoc, BitVec.xor_self, BitVec.zero_xor]

theorem exists_pair {a b : BitVec 8} (ha : a ≠ 0) (hb : b ≠ 0) :
    ∃ a' b', a' ≠ 0 ∧ b' ≠ 0 ∧ b' ≠ b ∧ getHash [a', b'] = getHash [a, b] := by
  have hzero : b.toNat ≠ 0 := fun h => hb (BitVec.eq_of_toNat_eq h)
  obtain ⟨m, _, hm, m', _, hm', hne⟩ := two_partners b.toNat b.isLt hzero
  obtain ⟨u, d, rfl, hu, hub, hd⟩ := exists_of_partner hb hm
  obtain ⟨u', d', rfl, hu', hub', hd'⟩ := exists_of_partner hb hm'
  by_cases had : a = d
  · -- only one of two partners can need `a` itself to change to NUL
    have had' : a ≠ d' := by
      rintro rfl
      rw [← had, hd', BitVec.xor_right_inj, mul_33_inj, ← List.nil_append [u],
        ← List.nil_append [u'], getHash_substitute_iff List.not_mem_nil hu' hu] at hd
      exact hne (congrArg BitVec.toNat hd.symm)
    obtain ⟨ha', hpair⟩ := getHash_pair ha had' hd'
    exact ⟨_, u', ha', hu', hub', hpair⟩
  · obtain ⟨ha', hpair⟩ := getHash_pair ha had hd
    exact ⟨_, u, ha', hu, hub, hpair⟩

/-- **Every string of two characters or more has a second preimage of the same
length.** -/
theorem second_preimage {s : Chars} (hs : 0 ∉ s) (hlength : 2 ≤ s.length) :
    ∃ s', SecondPreimage s' s ∧ 0 ∉ s' ∧ s'.length = s.length := by
  rcases List.eq_nil_or_concat s with rfl | ⟨t, b, rfl⟩
  · cases hlength
  rcases List.eq_nil_or_concat t with rfl | ⟨p, a, rfl⟩
  · cases Nat.le_of_succ_le_succ hlength
  simp only [List.concat_eq_append, List.append_assoc, List.cons_append, List.nil_append] at hs ⊢
  obtain ⟨hp, hab⟩ := not_or.mp (mt List.mem_append.mpr hs)
  obtain ⟨ha, hb⟩ := not_or.mp (mt List.mem_cons.mpr hab)
  have hb' : b ≠ 0 := fun h => hb (List.mem_singleton.mpr h.symm)
  obtain ⟨a', u, ha', hu, hne, hpair⟩ := exists_pair (Ne.symm ha) hb'
  refine ⟨p ++ [a', u], ⟨?_, (getHash_append_iff hp).mpr hpair⟩, ?_, ?_⟩
  · intro heq
    cases List.append_cancel_left heq
    exact hne rfl
  · rw [List.mem_append, List.mem_cons, List.mem_singleton]
    rintro (h | h | h)
    · exact hp h
    · exact ha' h.symm
    · exact hu h.symm
  · rw [List.length_append, List.length_append]
    rfl

end SravzBackend.Main
