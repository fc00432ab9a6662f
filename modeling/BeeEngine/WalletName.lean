import BeeEngine.Deploy
import BeeEngine.Lib.HexNumber
import BeeEngine.Lib.Lowercase
import BeeEngine.Lib.RegexSearch

/-!
# Names of wallets

The names that `verify_wallet_name` accepts, and the one under which a deploy
goes out.
-/

namespace BeeEngine

namespace WalletName

open Deploy Lowercase RegexSearch

/-- `trim().to_lowercase()` -/
def normalise (props : CaseProperties) (walletName : String) : String :=
  toLowercase props (Text.trim walletName)

/-- `[a-z0-9_-]` -/
def symbols : List Char := span 'a' 'z' ++ span '0' '9' ++ ['_', '-']

def reSymbols : RegularExpression Char := atLeast 1 (oneOf symbols)

def reHyphens : RegularExpression Char := atLeast 2 (.char '-')

def reUnderscores : RegularExpression Char := atLeast 2 (.char '_')

def startsWith (c : Char) (s : String) : Bool := s.toList.head? = some c

def verifyWalletName (props : CaseProperties) (walletName : String) :
    Except WalletNameError Unit :=
  let walletName := normalise props walletName
  if !isMatchWhole reSymbols walletName.toList then .error .invalidCharacters
  else if isMatch reHyphens walletName.toList then .error .consecutiveHyphens
  else if isMatch reUnderscores walletName.toList then .error .consecutiveUnderscores
  else if startsWith '-' walletName || startsWith '_' walletName then .error .startsWithSymbol
  else if walletName.utf8ByteSize > 39 then .error .tooLong
  else if walletName.utf8ByteSize < 4 then .error .tooShort
  else .ok ()

/-- `WalletNameErrorCode` -/
def errorCode : WalletNameError → ℕ
  | .invalidCharacters => 1
  | .consecutiveHyphens => 2
  | .consecutiveUnderscores => 3
  | .startsWithSymbol => 4
  | .tooLong => 5
  | .tooShort => 6

structure ResultOfValidateWalletName where
  isValid : Bool
  errorCode : Option ℕ
  deriving DecidableEq, Repr

def validateName (props : CaseProperties) (walletName : String) : ResultOfValidateWalletName :=
  match verifyWalletName props walletName with
  | .ok () => ⟨true, none⟩
  | .error err => ⟨false, some (errorCode err)⟩

/-- The name with which `run_deploy_multifactor` goes on. -/
def checkedName (props : CaseProperties) (walletName : String) : Except WalletNameError String :=
  let walletName := normalise props walletName
  (verifyWalletName props walletName).map fun () ↦ walletName

variable {P M : Type}

/-- The steps of a deploy that handle the name; `rest` is what else the message bears. -/
def namedSteps (props : CaseProperties)
    (rest : ParamsOfDeployMultifactor P → KeyPair → String → Except AppError M)
    (steps : Steps P M) : Steps P M :=
  { steps with
    verifyWalletName := checkedName props
    prepareMultifactorDeploy := fun params keys address ↦
      (rest params keys address).map fun rest ↦ ⟨params.walletName, rest⟩ }

/-! ## What is claimed -/

/-- The language of the names, over the characters that are allowed. -/
structure IsWalletName (allowed : Char → Prop) (name : String) : Prop where
  length : 4 ≤ (Text.trim name).length ∧ (Text.trim name).length ≤ 39
  symbols : ∀ c ∈ (Text.trim name).toList, allowed c
  hyphens : ¬['-', '-'] <:+: (Text.trim name).toList
  underscores : ¬['_', '_'] <:+: (Text.trim name).toList
  start : ∀ c ∈ (Text.trim name).toList.head?, c ≠ '-' ∧ c ≠ '_'

/-- ASCII letters, digits, underscore and hyphen. -/
def IsAsciiSymbol (c : Char) : Prop :=
  ('a' ≤ c ∧ c ≤ 'z') ∨ ('A' ≤ c ∧ c ≤ 'Z') ∨ ('0' ≤ c ∧ c ≤ '9') ∨ c = '_' ∨ c = '-'

instance (c : Char) : Decidable (IsAsciiSymbol c) := instDecidableOr

/-- The Kelvin sign is a capital `k` too. -/
def IsSymbol (c : Char) : Prop := IsAsciiSymbol c ∨ c = '\u212a'

instance (c : Char) : Decidable (IsSymbol c) := instDecidableOr

/-- A deploy takes an accepted name, makes it one that is accepted too and stays as it is, and sends
that one. -/
def SendsAccepted (props : CaseProperties) (walletName : String) : Prop :=
  (verifyWalletName props walletName = .ok () →
    checkedName props walletName = .ok (normalise props walletName)) ∧
  (∀ sent, checkedName props walletName = .ok sent →
    verifyWalletName props walletName = .ok () ∧ verifyWalletName props sent = .ok () ∧
      normalise props sent = sent) ∧
  ∀ (P M : Type) (steps : Steps P M)
    (rest : ParamsOfDeployMultifactor P → KeyPair → String → Except AppError M)
    (params : ParamsOfDeployMultifactor P) (submitted : Submitted M),
    params.walletName = walletName →
    (submit (namedSteps props rest steps) params).result = .ok submitted →
    checkedName props walletName = .ok submitted.deployParams.name

/-! ## Symbols -/

theorem mem_symbols_iff {c : Char} : c ∈ symbols ↔ (97 ≤ c.toNat ∧ c.toNat ≤ 122) ∨
    (48 ≤ c.toNat ∧ c.toNat ≤ 57) ∨ c.toNat = 95 ∨ c.toNat = 45 := by
  have hletter : c ∈ span 'a' 'z' ↔ 97 ≤ c.toNat ∧ c.toNat ≤ 122 := mem_span_iff (by decide)
  have hdigit : c ∈ span '0' '9' ↔ 48 ≤ c.toNat ∧ c.toNat ≤ 57 := mem_span_iff (by decide)
  simp only [symbols, List.mem_append, hletter, hdigit, List.mem_pair, ← Char.toNat_inj, or_assoc]
  rfl

theorem isAsciiSymbol_iff {c : Char} : IsAsciiSymbol c ↔ (97 ≤ c.toNat ∧ c.toNat ≤ 122) ∨
    (65 ≤ c.toNat ∧ c.toNat ≤ 90) ∨ (48 ≤ c.toNat ∧ c.toNat ≤ 57) ∨ c.toNat = 95 ∨
      c.toNat = 45 := by
  simp only [IsAsciiSymbol, ← Char.toNat_inj]
  rfl

theorem lowerNat_kelvin : lowerNat 0x212A = 107 := by decide

/-- A character is a symbol if its lower case is one. -/
theorem lowerChar_mem_symbols_iff {c : Char} : lowerChar c ∈ symbols ↔ IsSymbol c := by
  have hkelvin : c = '\u212a' ↔ c.toNat = 0x212A := Char.toNat_inj.symm
  rw [mem_symbols_iff, toNat_lowerChar, IsSymbol, isAsciiSymbol_iff, hkelvin]
  by_cases hc : c.toNat < 128
  · rw [lowerNat_of_ascii hc]
    split_ifs with hcapital
    · omega
    · omega
  · constructor
    · intro h
      rcases ascii_of_lowerNat (by omega : lowerNat c.toNat < 128) with hascii | hc
      · exact absurd hascii hc
      · exact .inr hc
    · intro h
      rw [(by omega : c.toNat = 0x212A), lowerNat_kelvin]
      omega

/-- Characters of ASCII that are no letters are reached from themselves only. -/
theorem lowerChar_eq_iff {a c : Char} (ha : a = '-' ∨ a = '_') : lowerChar c = a ↔ c = a := by
  have hsign : a.toNat = 45 ∨ a.toNat = 95 := ha.imp (congrArg Char.toNat) (congrArg Char.toNat)
  rw [← Char.toNat_inj, toNat_lowerChar, ← Char.toNat_inj]
  by_cases hc : c.toNat < 128
  · rw [lowerNat_of_ascii hc]
    split_ifs with hcapital
    · omega
    · omega
  · constructor
    · intro h
      rcases ascii_of_lowerNat (by omega : lowerNat c.toNat < 128) with hascii | hkelvin
      · exact absurd hascii hc
      · rw [hkelvin, lowerNat_kelvin] at h
        omega
    · intro h
      omega

theorem lowerIn_eq {props : CaseProperties} {before after : List Char} {c : Char}
    (h : IsSymbol c) : lowerIn props before c after = [lowerChar c] := by
  have hsigma : c ≠ 'Σ' := by
    rintro rfl
    revert h
    decide
  have hdot : c ≠ '\u0130' := by
    rintro rfl
    revert h
    decide
  rw [lowerIn, if_neg hsigma, toLower_of_ne hdot]

theorem isSymbol_of_lowerIn {props : CaseProperties} {before after : List Char} {c : Char}
    (h : ∀ x ∈ lowerIn props before c after, x ∈ symbols) : IsSymbol c := by
  by_cases hsigma : c = 'Σ'
  · rw [lowerIn, if_pos hsigma] at h
    have hmem := h _ (List.mem_singleton_self _)
    rw [mapUppercaseSigma] at hmem
    split at hmem
    · exact absurd hmem (by decide)
    · exact absurd hmem (by decide)
  · rw [lowerIn, if_neg hsigma] at h
    by_cases hdot : c = '\u0130'
    · rw [hdot, toLower_dot] at h
      exact absurd (h '\u0307' (by decide)) (by decide)
    · rw [toLower_of_ne hdot] at h
      exact lowerChar_mem_symbols_iff.mp (h _ (List.mem_singleton_self _))

section

variable {props : CaseProperties} {before cs : List Char}

/-- The lower case of a text of symbols, character by character. -/
theorem lowerChars_of_symbols (h : ∀ c ∈ cs, IsSymbol c) :
    lowerChars props before cs = cs.map lowerChar := by
  induction cs generalizing before with
  | nil => rfl
  | cons c cs ih =>
      rw [List.forall_mem_cons] at h
      rw [lowerChars, lowerIn_eq h.1, ih h.2, List.map_cons, List.singleton_append]

theorem lowerChars_mem_symbols_iff :
    (∀ x ∈ lowerChars props before cs, x ∈ symbols) ↔ ∀ c ∈ cs, IsSymbol c := by
  constructor
  · intro h
    induction cs generalizing before with
    | nil => simp
    | cons c cs ih =>
        rw [lowerChars, List.forall_mem_append] at h
        exact List.forall_mem_cons.mpr ⟨isSymbol_of_lowerIn h.1, ih h.2⟩
  · intro h
    rw [lowerChars_of_symbols h, List.forall_mem_map]
    exact fun c hc ↦ lowerChar_mem_symbols_iff.mpr (h c hc)

end

theorem replicate_infix_map_iff {a : Char} {n : ℕ} {f : Char → Char} {cs : List Char}
    (hf : ∀ c, f c = a ↔ c = a) :
    List.replicate n a <:+: cs.map f ↔ List.replicate n a <:+: cs := by
  rw [List.infix_map_iff]
  constructor
  · rintro ⟨l, hl, heq⟩
    have hlength : n = l.length := by simpa using congrArg List.length heq
    have hall : ∀ c ∈ l, c = a := fun c hc ↦
      (hf c).mp (List.eq_of_mem_replicate (heq ▸ List.mem_map_of_mem hc))
    rwa [List.eq_replicate_of_mem hall, ← hlength] at hl
  · intro h
    exact ⟨_, h, by rw [List.map_replicate, (hf a).mpr rfl]⟩

/-! ## The checks -/

section

variable {props : CaseProperties} {walletName : String}

theorem toList_normalise :
    (normalise props walletName).toList = lowerChars props [] (Text.trim walletName).toList := by
  rw [normalise, toLowercase, String.toList_ofList]

/-- The normalised name, when it is made of symbols. -/
theorem toList_normalise_of_symbols (h : ∀ c ∈ (Text.trim walletName).toList, IsSymbol c) :
    (normalise props walletName).toList = (Text.trim walletName).toList.map lowerChar := by
  rw [toList_normalise, lowerChars_of_symbols h]

theorem isMatchWhole_reSymbols_iff {w : List Char} :
    isMatchWhole reSymbols w = true ↔ 1 ≤ w.length ∧ ∀ c ∈ w, c ∈ symbols := by
  rw [isMatchWhole_iff, reSymbols]
  exact (isClass_oneOf symbols).mem_atLeast_iff

theorem verifyWalletName_eq_ok_iff : verifyWalletName props walletName = .ok () ↔
    isMatchWhole reSymbols (normalise props walletName).toList = true ∧
      isMatch reHyphens (normalise props walletName).toList = false ∧
      isMatch reUnderscores (normalise props walletName).toList = false ∧
      startsWith '-' (normalise props walletName) = false ∧
      startsWith '_' (normalise props walletName) = false ∧
      (normalise props walletName).utf8ByteSize ≤ 39 ∧
      4 ≤ (normalise props walletName).utf8ByteSize := by
  rw [verifyWalletName]
  split_ifs with hsymbols hhyphens hunderscores hstart hlong hshort
  · simp_all
  · simp_all
  · simp_all
  · rcases Bool.or_eq_true_iff.mp hstart with h | h <;> simp [h]
  · simp_all
  · simp_all
  · simp_all

theorem mem_symbols_normalise_iff : (∀ c ∈ (normalise props walletName).toList, c ∈ symbols) ↔
    ∀ c ∈ (Text.trim walletName).toList, IsSymbol c := by
  rw [toList_normalise, lowerChars_mem_symbols_iff]

section

variable (hsymbols : ∀ c ∈ (Text.trim walletName).toList, IsSymbol c)

include hsymbols

theorem utf8ByteSize_normalise :
    (normalise props walletName).utf8ByteSize = (Text.trim walletName).length := by
  have hascii (c : Char) (hc : c ∈ (normalise props walletName).toList) : c.toNat < 128 := by
    have hmem := mem_symbols_iff.mp (mem_symbols_normalise_iff.mpr hsymbols c hc)
    omega
  rw [HexNumber.utf8ByteSize_of_ascii hascii, ← String.length_toList,
    toList_normalise_of_symbols hsymbols, List.length_map, String.length_toList]

theorem isMatch_normalise_iff {a : Char} (ha : a = '-' ∨ a = '_') :
    isMatch (atLeast 2 (.char a)) (normalise props walletName).toList = true ↔
      [a, a] <:+: (Text.trim walletName).toList := by
  rw [isMatch_atLeast_char, toList_normalise_of_symbols hsymbols,
    replicate_infix_map_iff fun c ↦ lowerChar_eq_iff ha]
  rfl

theorem startsWith_normalise_iff {a : Char} (ha : a = '-' ∨ a = '_') :
    startsWith a (normalise props walletName) = true ↔
      a ∈ (Text.trim walletName).toList.head? := by
  rw [startsWith, decide_eq_true_eq, toList_normalise_of_symbols hsymbols, List.head?_map,
    Option.map_eq_some_iff]
  simp only [lowerChar_eq_iff ha, exists_eq_right, Option.mem_def]

end

/-- The checks of the normalised name, on the name that is trimmed only. -/
theorem verifyWalletName_iff :
    verifyWalletName props walletName = .ok () ↔ IsWalletName IsSymbol walletName := by
  rw [verifyWalletName_eq_ok_iff, isMatchWhole_reSymbols_iff, mem_symbols_normalise_iff]
  constructor
  · rintro ⟨⟨-, hsymbols⟩, hhyphens, hunderscores, hhyphen, hunderscore, hlong, hshort⟩
    rw [utf8ByteSize_normalise hsymbols] at hlong hshort
    rw [← Bool.not_eq_true] at hhyphens hunderscores hhyphen hunderscore
    rw [reHyphens, isMatch_normalise_iff hsymbols (.inl rfl)] at hhyphens
    rw [reUnderscores, isMatch_normalise_iff hsymbols (.inr rfl)] at hunderscores
    rw [startsWith_normalise_iff hsymbols (.inl rfl)] at hhyphen
    rw [startsWith_normalise_iff hsymbols (.inr rfl)] at hunderscore
    refine ⟨⟨hshort, hlong⟩, hsymbols, hhyphens, hunderscores, fun c hc ↦ ⟨?_, ?_⟩⟩
    · exact fun heq ↦ hhyphen (heq ▸ hc)
    · exact fun heq ↦ hunderscore (heq ▸ hc)
  · intro h
    have hlength : (normalise props walletName).toList.length = (Text.trim walletName).length := by
      rw [toList_normalise_of_symbols h.symbols, List.length_map, String.length_toList]
    obtain ⟨hshort, hlong⟩ := h.length
    rw [utf8ByteSize_normalise h.symbols, hlength]
    simp only [← Bool.not_eq_true]
    rw [reHyphens, isMatch_normalise_iff h.symbols (.inl rfl), reUnderscores,
      isMatch_normalise_iff h.symbols (.inr rfl), startsWith_normalise_iff h.symbols (.inl rfl),
      startsWith_normalise_iff h.symbols (.inr rfl)]
    exact ⟨⟨by omega, h.symbols⟩, h.hyphens, h.underscores, fun hc ↦ (h.start _ hc).1 rfl,
      fun hc ↦ (h.start _ hc).2 rfl, hlong, hshort⟩

/-! ## The name of a deploy -/

theorem normalise_normalise : normalise props (normalise props walletName) =
    normalise props walletName := by
  rw [normalise, normalise, trim_toLowercase_trim, toLowercase_toLowercase]

theorem verifyWalletName_normalise : verifyWalletName props (normalise props walletName) =
    verifyWalletName props walletName := by
  rw [verifyWalletName, normalise_normalise, verifyWalletName]

theorem checkedName_eq : checkedName props walletName =
    (verifyWalletName props walletName).map fun () ↦ normalise props walletName := by
  rw [checkedName, verifyWalletName_normalise]

theorem checkedName_eq_ok_iff {sent : String} : checkedName props walletName = .ok sent ↔
    verifyWalletName props walletName = .ok () ∧ normalise props walletName = sent := by
  rw [checkedName_eq, Outcome.map_eq_ok_iff]
  exact ⟨fun ⟨(), h⟩ ↦ h, fun h ↦ ⟨(), h⟩⟩

theorem errorCode_injective : Function.Injective errorCode := by
  intro e e' h
  cases e <;> cases e' <;> first | rfl | cases h

/-- The names that are told to be valid are those which a deploy takes, and the
others have the same error in both. -/
theorem validateName_agrees : ((validateName props walletName).isValid = true ↔
      checkedName props walletName = .ok (normalise props walletName)) ∧
    ∀ e, (validateName props walletName).errorCode = some (errorCode e) ↔
      checkedName props walletName = .error e := by
  rw [checkedName_eq, validateName]
  cases verifyWalletName props walletName with
  | ok u => simp [Except.map]
  | error err => simp [Except.map, errorCode_injective.eq_iff]

end

theorem verifyWalletName_namedSteps {props : CaseProperties}
    {rest : ParamsOfDeployMultifactor P → KeyPair → String → Except AppError M}
    (steps : Steps P M) :
    (namedSteps props rest steps).verifyWalletName = checkedName props := by
  rw [namedSteps]

/-- The message of a deploy bears the name that was checked. -/
theorem checkedName_of_submit {props : CaseProperties} {steps : Steps P M}
    {rest : ParamsOfDeployMultifactor P → KeyPair → String → Except AppError M}
    {params : ParamsOfDeployMultifactor P} {submitted : Submitted M}
    (h : (submit (namedSteps props rest steps) params).result = .ok submitted) :
    checkedName props params.walletName = .ok submitted.deployParams.name := by
  simp only [submit, Reporting.bind_result, Reporting.emit_result, Reporting.liftM_result,
    Reporting.pure_result, Outcome.ok_bind, Outcome.bind_eq_ok_iff, inContext_eq_ok_iff] at h
  obtain ⟨sent, hsent, generated, -, address, -, deployParams, hprepared, mirror, -, result, -,
    accepted, -, hsubmitted⟩ := h
  obtain rfl := Except.ok.inj hsubmitted
  have hname : deployParams.name = sent := by
    obtain ⟨data, -, rfl⟩ := Outcome.map_eq_ok_iff.mp hprepared
    rfl
  rw [Outcome.mapError_eq_ok_iff] at hsent
  rw [hname, ← verifyWalletName_namedSteps steps, hsent]

theorem accepted_names (props : CaseProperties) (walletName : String) :
    (verifyWalletName props walletName = .ok () ↔ IsWalletName IsSymbol walletName) ∧
      SendsAccepted props walletName := by
  refine ⟨verifyWalletName_iff, fun hok ↦ ?_, fun sent hsent ↦ ?_, ?_⟩
  · exact checkedName_eq_ok_iff.mpr ⟨hok, rfl⟩
  · obtain ⟨hok, rfl⟩ := checkedName_eq_ok_iff.mp hsent
    exact ⟨hok, by rw [verifyWalletName_normalise, hok], normalise_normalise⟩
  · rintro P M steps rest params submitted rfl hsubmitted
    exact checkedName_of_submit hsubmitted

/-- The Kelvin sign is accepted, and is none of the ASCII symbols. -/
theorem not_accepted_strict : ¬∀ (props : CaseProperties) (walletName : String),
    verifyWalletName props walletName = .ok () ↔ IsWalletName IsAsciiSymbol walletName := by
  intro h
  have hname := (h ⟨Char.isAlpha, fun _ ↦ false⟩ "aaa\u212a").mp (by decide +kernel)
  have hkelvin := hname.symbols '\u212a' (by decide +kernel)
  exact absurd hkelvin (by decide)

end WalletName

end BeeEngine
