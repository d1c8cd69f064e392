import SocksProxy.Server.UsersFormat

/-! Where `parse_user` stores the two fields of a user, and how long they can get. -/
namespace SocksProxy

open UserMemory

/-- The places in its array at which a field is stored, its terminator included, from the
`n`-th on. Both loops are alike but for their delimiter. -/
def fieldStores (delimiter : Int8) : ℕ → List Byte → List ℕ
  | n, [] => [n]
  | n, b :: file =>
    let c := b.toInt8
    if 0 ≤ c ∧ c ≠ delimiter then
      if c < minimunPrintableAscii ∨ 255 < n then [] else n :: fieldStores delimiter (n + 1) file
    else [n]

/-- What a field's loop reads on, short of an error: everything up to its delimiter. -/
def field (delimiter : Int8) (file : List Byte) : List Byte :=
  file.takeWhile fun b => 0 ≤ b.toInt8 && b.toInt8 != delimiter

def FieldClean (delimiter : Int8) (file : List Byte) : Prop :=
  ∀ b ∈ field delimiter file, ¬ b.toInt8 < minimunPrintableAscii

def behindField (delimiter : Int8) (file : List Byte) : List Byte :=
  (file.drop (field delimiter file).length).tail

variable {m m' : UserMemory} {file : List Byte} {delimiter : Int8} {n : ℕ} {b : Byte}

theorem field_cons_stop (h : ¬ (0 ≤ b.toInt8 ∧ b.toInt8 ≠ delimiter)) :
    field delimiter (b :: file) = [] := by
  apply List.takeWhile_cons_of_neg
  simpa using h

theorem field_cons_go (h : 0 ≤ b.toInt8 ∧ b.toInt8 ≠ delimiter) :
    field delimiter (b :: file) = b :: field delimiter file := by
  apply List.takeWhile_cons_of_pos
  simpa using h

/-- A field is stored past its array exactly when it is clean and one byte too long. -/
theorem fieldStores_within_iff (hn : n ≤ 256) :
    (∀ i ∈ fieldStores delimiter n file, i < 256) ↔
      ¬ (FieldClean delimiter file ∧ n + (field delimiter file).length = 256) := by
  induction file generalizing n with
  | nil =>
    change (∀ i ∈ [n], i < 256) ↔ ¬ ((∀ b ∈ [], _) ∧ n + 0 = 256)
    rw [List.forall_mem_singleton]
    constructor
    · intro hlt hall
      omega
    · intro hno
      have hne : n ≠ 256 := fun he => hno ⟨nofun, he⟩
      omega
  | cons b file ih =>
    unfold fieldStores FieldClean
    by_cases hgo : 0 ≤ b.toInt8 ∧ b.toInt8 ≠ delimiter
    · rw [field_cons_go hgo]
      simp only [hgo, ne_eq, not_false_eq_true, and_self, if_true, List.forall_mem_cons,
        List.length_cons]
      by_cases hbad : b.toInt8 < minimunPrintableAscii ∨ 255 < n
      · rw [if_pos hbad]
        refine iff_of_true nofun ?_
        rintro ⟨⟨hclean, -⟩, hlen⟩
        rcases hbad with hcontrol | hlong
        · exact hclean hcontrol
        · omega
      · rw [if_neg hbad, List.forall_mem_cons, ih (by omega)]
        obtain ⟨hclean, hshort⟩ := not_or.mp hbad
        unfold FieldClean
        constructor
        · rintro ⟨-, hno⟩ ⟨⟨-, hrest⟩, hlen⟩
          exact hno ⟨hrest, by omega⟩
        · intro hno
          refine ⟨by omega, ?_⟩
          rintro ⟨hrest, hlen⟩
          exact hno ⟨⟨hclean, hrest⟩, by omega⟩
    · rw [field_cons_stop hgo, if_neg hgo, List.forall_mem_singleton]
      constructor
      · rintro hlt ⟨-, hlen⟩
        rw [List.length_nil] at hlen
        omega
      · intro hno
        have hne : n ≠ 256 := fun he => hno ⟨nofun, he⟩
        omega

/-- A line that is skipped ends at its newline, or at the end of what can be read. -/
theorem skipLine_ne_zero (file : List Byte) : (skipLine file).1.toInt ≠ 0 := by
  induction file with
  | nil => decide
  | cons b file ih =>
    rw [skipLine]
    by_cases hgo : 0 ≤ b.toInt8 ∧ b.toInt8 ≠ newline
    · rw [if_pos hgo]
      exact ih
    · rw [if_neg hgo]
      intro hzero
      have hnul : b.toInt8 = 0 := Int8.toInt_inj.mp hzero
      rw [hnul] at hgo
      exact hgo ⟨by decide, by decide⟩

/-- What a field's loop comes to: the field in memory with its terminator, or an error. -/
inductive FieldParsed (m : UserMemory) (base n : ℕ) (delimiter : Int8) (file : List Byte) :
    Except (ℤ × List Byte) (UserMemory × List Byte) → Prop
  | stored : FieldClean delimiter file → n + (field delimiter file).length ≤ 256 →
      FieldParsed m base n delimiter file (.ok (Function.update
        (storeBytes m (base + n) (field delimiter file))
        (base + n + (field delimiter file).length) 0, behindField delimiter file))
  | rejected {result : ℤ} (rest : List Byte) : result ≠ 0 →
      ¬ (FieldClean delimiter file ∧ n + (field delimiter file).length ≤ 256) →
      FieldParsed m base n delimiter file (.error (result, rest))

theorem FieldParsed.cons {base : ℕ} {r : Except (ℤ × List Byte) (UserMemory × List Byte)}
    (hgo : 0 ≤ b.toInt8 ∧ b.toInt8 ≠ delimiter) (hclean : ¬ b.toInt8 < minimunPrintableAscii)
    (h : FieldParsed (Function.update m (base + n) b) base (n + 1) delimiter file r) :
    FieldParsed m base n delimiter (b :: file) r := by
  have hfield : field delimiter (b :: file) = _ := field_cons_go hgo
  have hiff : FieldClean delimiter (b :: file) ↔ FieldClean delimiter file := by
    unfold FieldClean
    rw [hfield, List.forall_mem_cons]
    exact and_iff_right hclean
  have hlen : (field delimiter (b :: file)).length = (field delimiter file).length + 1 := by
    rw [hfield, List.length_cons]
  cases h with
  | stored hc hn =>
    have hstored : FieldParsed m base n delimiter (b :: file) _ :=
      .stored (hiff.mpr hc) (by omega)
    have hmem : storeBytes m (base + n) (field delimiter (b :: file)) =
        storeBytes (Function.update m (base + n) b) (base + (n + 1)) (field delimiter file) := by
      rw [hfield]
      rfl
    have hend : base + n + (field delimiter (b :: file)).length =
        base + (n + 1) + (field delimiter file).length := by omega
    have hrest : behindField delimiter (b :: file) = behindField delimiter file := by
      unfold behindField
      rw [hlen, List.drop_succ_cons]
    rw [hmem, hend, hrest] at hstored
    exact hstored
  | rejected rest hne hno =>
    refine .rejected rest hne ?_
    rintro ⟨hc, hn⟩
    exact hno ⟨hiff.mp hc, by omega⟩

theorem FieldParsed.stop {base : ℕ} (hn : n ≤ 256) (hnil : field delimiter file = []) :
    FieldParsed m base n delimiter file
      (.ok (Function.update m (base + n) 0, file.tail)) := by
  have hclean : FieldClean delimiter file := by
    unfold FieldClean
    rw [hnil]
    exact nofun
  have hlen : n + (field delimiter file).length ≤ 256 := by
    rw [hnil]
    exact hn
  have hstored := @FieldParsed.stored m base n delimiter file hclean hlen
  unfold behindField at hstored
  rw [hnil] at hstored
  exact hstored

theorem FieldParsed.reject {base : ℕ} {result : ℤ} {rest : List Byte} (hne : result ≠ 0)
    (hgo : 0 ≤ b.toInt8 ∧ b.toInt8 ≠ delimiter)
    (hbad : b.toInt8 < minimunPrintableAscii ∨ 255 < n) :
    FieldParsed m base n delimiter (b :: file) (.error (result, rest)) := by
  refine .rejected rest hne ?_
  rintro ⟨hclean, hn⟩
  unfold FieldClean at hclean
  rw [field_cons_go hgo] at hclean hn
  rw [List.length_cons] at hn
  rcases hbad with hcontrol | hlong
  · exact hclean b List.mem_cons_self hcontrol
  · omega

theorem parseUsername_parsed (m : UserMemory) (file : List Byte) (hn : n ≤ 256) :
    FieldParsed m 0 n usernameDelimiter file (parseUsername m n file) := by
  induction file generalizing m n with
  | nil =>
    have hstop := @FieldParsed.stop m [] usernameDelimiter n 0 hn rfl
    rw [Nat.zero_add] at hstop
    exact hstop
  | cons b file ih =>
    rw [parseUsername]
    by_cases hgo : 0 ≤ b.toInt8 ∧ b.toInt8 ≠ usernameDelimiter
    · rw [if_pos hgo]
      by_cases hbad : b.toInt8 < minimunPrintableAscii ∨ maxUsernameLen < n
      · rw [if_pos hbad]
        by_cases hline : b.toInt8 ≠ newline
        · rw [if_pos hline]
          exact .reject (skipLine_ne_zero file) hgo hbad
        · rw [if_neg hline]
          exact .reject (by decide) hgo hbad
      · rw [if_neg hbad]
        obtain ⟨hclean, hshort⟩ := not_or.mp hbad
        have hrest := ih (Function.update m n b) (n := n + 1) (by unfold maxUsernameLen at hshort; omega)
        refine .cons hgo hclean ?_
        rw [Nat.zero_add]
        exact hrest
    · rw [if_neg hgo]
      have hstop := @FieldParsed.stop m (b :: file) usernameDelimiter n 0 hn (field_cons_stop hgo)
      rw [Nat.zero_add] at hstop
      exact hstop

theorem parsePassword_parsed (m : UserMemory) (file : List Byte) (hn : n ≤ 256) :
    FieldParsed m passwordOffset n newline file (parsePassword m n file) := by
  induction file generalizing m n with
  | nil => exact .stop hn rfl
  | cons b file ih =>
    rw [parsePassword]
    by_cases hgo : 0 ≤ b.toInt8 ∧ b.toInt8 ≠ newline
    · rw [if_pos hgo]
      by_cases hbad : b.toInt8 < minimunPrintableAscii ∨ maxPasswordLen < n
      · rw [if_pos hbad]
        exact .reject (skipLine_ne_zero file) hgo hbad
      · rw [if_neg hbad]
        obtain ⟨hclean, hshort⟩ := not_or.mp hbad
        exact .cons hgo hclean
          (ih (Function.update m (passwordOffset + n) b) (by unfold maxPasswordLen at hshort; omega))
    · rw [if_neg hgo]
      exact .stop hn (field_cons_stop hgo)

/-! One call of `parse_user`. -/

/-- The places in `username` that the call stores to. -/
def usernameStores (file : List Byte) : List ℕ :=
  let (c, file) := skipWhiteSpaces file
  if c = adminAccessLevelSpecifier ∨ c = userAccessLevelSpecifier then
    fieldStores usernameDelimiter 0 file
  else []

/-- The places in `password`, if the call gets so far. -/
def passwordStores (m : UserMemory) (file : List Byte) : List ℕ :=
  let (c, file) := skipWhiteSpaces file
  if c = adminAccessLevelSpecifier ∨ c = userAccessLevelSpecifier then
    match parseUsername m 0 file with
    | .ok (_, file) => fieldStores newline 0 file
    | .error _ => []
  else []

def usernameField (file : List Byte) : List Byte := field usernameDelimiter (skipWhiteSpaces file).2

def passwordField (file : List Byte) : List Byte :=
  field newline (behindField usernameDelimiter (skipWhiteSpaces file).2)

def specifiedLevel (c : Int8) : AccessLevel :=
  if c = adminAccessLevelSpecifier then .admin else .user

/-- Every store is inside its array, the record of an accepted line has strings that end in
their own arrays and the level of its specifier, and longer fields are refused. -/
structure LimitsKept (m : UserMemory) (file : List Byte) : Prop where
  username : ∀ i ∈ usernameStores file, i < 256
  password : ∀ i ∈ passwordStores m file, i < 256
  strings : (parseUser m file).1 = 0 →
    (parseUser m file).2.1.username.length ≤ maxUsernameLen ∧
      (∃ i < 256, (parseUser m file).2.1 i = 0) ∧
      (parseUser m file).2.1.password.length ≤ maxPasswordLen ∧
      ∃ i < 256, (parseUser m file).2.1 (passwordOffset + i) = 0
  level : (parseUser m file).1 = 0 →
    (parseUser m file).2.1.accessLevel = some (specifiedLevel (skipWhiteSpaces file).1)
  long : maxUsernameLen < (usernameField file).length ∨ maxPasswordLen < (passwordField file).length →
    (parseUser m file).1 ≠ 0

/-- The line has a specifier, and its username is of 256 characters, or its username fits and
its password is of 256 characters. -/
def OneTooLong (file : List Byte) : Prop :=
  ((skipWhiteSpaces file).1 = adminAccessLevelSpecifier ∨
    (skipWhiteSpaces file).1 = userAccessLevelSpecifier) ∧
  FieldClean usernameDelimiter (skipWhiteSpaces file).2 ∧
  ((usernameField file).length = 256 ∨
    (usernameField file).length ≤ 255 ∧
      FieldClean newline (behindField usernameDelimiter (skipWhiteSpaces file).2) ∧
      (passwordField file).length = 256)

theorem FieldClean.zero_notMem (h : FieldClean delimiter file) : 0 ∉ field delimiter file := by
  intro hmem
  exact h 0 hmem (by decide)

theorem parsed_record {name word : List Byte} {level : AccessLevel} (hname : 0 ∉ name)
    (hword : 0 ∉ word) (hn : name.length ≤ 255) (hw : word.length ≤ 255)
    (hlevel : m.accessLevel = some level)
    (hm : m' = Function.update (storeBytes (Function.update (storeBytes m 0 name) name.length 0)
      passwordOffset word) (passwordOffset + word.length) 0) :
    (m'.username.length ≤ maxUsernameLen ∧ (∃ i < 256, m' i = 0) ∧
      m'.password.length ≤ maxPasswordLen ∧ ∃ i < 256, m' (passwordOffset + i) = 0) ∧
    m'.accessLevel = some level := by
  obtain ⟨husername, hpassword, haccess⟩ := parsedUser_fields level hname hword hn hw hlevel hm
  have hoff : passwordOffset = 256 := rfl
  have hfirst : m' name.length = 0 := by
    rw [hm, Function.update_of_ne (by omega), storeBytes_of_lt (by omega)]
    exact Function.update_self _ _ _
  have hsecond : m' (passwordOffset + word.length) = 0 := by
    rw [hm]
    exact Function.update_self _ _ _
  refine ⟨⟨?_, ⟨_, by omega, hfirst⟩, ?_, ⟨_, by omega, hsecond⟩⟩, haccess⟩
  · rw [husername]
    exact hn
  · rw [hpassword]
    exact hw

theorem parseFields_limits (m : UserMemory) (file : List Byte) (level : AccessLevel)
    (hlevel : m.accessLevel = some level) :
    (FieldClean usernameDelimiter file ∧ (field usernameDelimiter file).length ≤ 256 ∧
      FieldClean newline (behindField usernameDelimiter file) ∧
      (field newline (behindField usernameDelimiter file)).length ≤ 256 ∧
      (parseFields m file).1 = 0 ∧
      ((field usernameDelimiter file).length ≤ 255 →
        (field newline (behindField usernameDelimiter file)).length ≤ 255 →
        ((parseFields m file).2.1.username.length ≤ maxUsernameLen ∧
          (∃ i < 256, (parseFields m file).2.1 i = 0) ∧
          (parseFields m file).2.1.password.length ≤ maxPasswordLen ∧
          ∃ i < 256, (parseFields m file).2.1 (passwordOffset + i) = 0) ∧
        (parseFields m file).2.1.accessLevel = some level)) ∨
    ((parseFields m file).1 ≠ 0 ∧
      ¬ (FieldClean usernameDelimiter file ∧ (field usernameDelimiter file).length ≤ 256 ∧
        FieldClean newline (behindField usernameDelimiter file) ∧
        (field newline (behindField usernameDelimiter file)).length ≤ 256)) := by
  have hname := parseUsername_parsed m file (Nat.zero_le 256)
  unfold parseFields
  generalize parseUsername m 0 file = r at hname ⊢
  cases hname with
  | rejected rest hne hno =>
    right
    refine ⟨hne, fun h => hno ⟨h.1, ?_⟩⟩
    rw [Nat.zero_add]
    exact h.2.1
  | stored hclean hlen =>
    rw [Nat.zero_add] at hlen
    simp only [Nat.zero_add]
    set m₁ := Function.update (storeBytes m 0 (field usernameDelimiter file))
      (field usernameDelimiter file).length 0 with hm₁
    have hword := parsePassword_parsed m₁ (behindField usernameDelimiter file) (Nat.zero_le 256)
    generalize parsePassword m₁ 0 (behindField usernameDelimiter file) = r at hword ⊢
    cases hword with
    | rejected rest hne hno =>
      right
      refine ⟨hne, fun h => hno ⟨h.2.2.1, ?_⟩⟩
      rw [Nat.zero_add]
      exact h.2.2.2
    | stored hclean' hlen' =>
      rw [Nat.zero_add] at hlen'
      left
      refine ⟨hclean, hlen, hclean', hlen', rfl, fun hn hw => ?_⟩
      exact parsed_record hclean.zero_notMem hclean'.zero_notMem hn hw hlevel rfl

theorem parseUser_unspecified (h : ¬ ((skipWhiteSpaces file).1 = adminAccessLevelSpecifier ∨
    (skipWhiteSpaces file).1 = userAccessLevelSpecifier)) : (parseUser m file).1 ≠ 0 := by
  obtain ⟨hadmin, huser⟩ := not_or.mp h
  unfold parseUser
  simp only
  by_cases hend : (skipWhiteSpaces file).1 < 0
  · rw [if_pos hend]
    exact show (-1 : ℤ) ≠ 0 by decide
  · rw [if_neg hend, if_neg hadmin, if_neg huser]
    exact show (1 : ℤ) ≠ 0 by decide

theorem parseUser_level (h : (skipWhiteSpaces file).1 = adminAccessLevelSpecifier ∨
    (skipWhiteSpaces file).1 = userAccessLevelSpecifier) : ∃ m₁ : UserMemory,
    m₁.accessLevel = some (specifiedLevel (skipWhiteSpaces file).1) ∧
      parseUser m file = parseFields m₁ (skipWhiteSpaces file).2 := by
  unfold parseUser
  rcases h with hadmin | huser
  · refine ⟨m.setAccessLevel 0, ?_, ?_⟩
    · rw [accessLevel_set, hadmin]
      rfl
    · simp only [hadmin]
      rfl
  · refine ⟨m.setAccessLevel 1, ?_, ?_⟩
    · rw [accessLevel_set, huser]
      rfl
    · simp only [huser]
      rfl

/-- The password's loop runs behind a username that was taken. -/
theorem passwordStores_within_iff (h : (skipWhiteSpaces file).1 = adminAccessLevelSpecifier ∨
    (skipWhiteSpaces file).1 = userAccessLevelSpecifier) :
    (∀ i ∈ passwordStores m file, i < 256) ↔
      ¬ (FieldClean usernameDelimiter (skipWhiteSpaces file).2 ∧
        (usernameField file).length ≤ 256 ∧
        FieldClean newline (behindField usernameDelimiter (skipWhiteSpaces file).2) ∧
        (passwordField file).length = 256) := by
  have hname := parseUsername_parsed m (skipWhiteSpaces file).2 (Nat.zero_le 256)
  unfold passwordStores usernameField passwordField
  simp only
  rw [if_pos h]
  generalize parseUsername m 0 (skipWhiteSpaces file).2 = r at hname ⊢
  cases hname with
  | rejected rest hne hno =>
    rw [Nat.zero_add] at hno
    exact iff_of_true nofun fun hall => hno ⟨hall.1, hall.2.1⟩
  | stored hclean hlen =>
    rw [Nat.zero_add] at hlen
    simp only
    rw [fieldStores_within_iff (Nat.zero_le 256), Nat.zero_add]
    constructor
    · intro hno hall
      exact hno hall.2.2
    · intro hno hall
      exact hno ⟨hclean, hlen, hall⟩

/-- `parse_user` keeps the limits of the two fields except on lines where one is a single byte
too long. -/
theorem parse_user_limits_iff (m : UserMemory) (file : List Byte) :
    LimitsKept m file ↔ ¬ OneTooLong file := by
  by_cases hspec : (skipWhiteSpaces file).1 = adminAccessLevelSpecifier ∨
      (skipWhiteSpaces file).1 = userAccessLevelSpecifier
  · have hname : (∀ i ∈ usernameStores file, i < 256) ↔
        ¬ (FieldClean usernameDelimiter (skipWhiteSpaces file).2 ∧ (usernameField file).length = 256) := by
      unfold usernameStores usernameField
      simp only
      rw [if_pos hspec, fieldStores_within_iff (Nat.zero_le 256), Nat.zero_add]
    have hword := passwordStores_within_iff (m := m) hspec
    constructor
    · rintro h ⟨-, hclean, hlong | ⟨hfits, hclean', hlong⟩⟩
      · exact hname.mp h.username ⟨hclean, hlong⟩
      · exact hword.mp h.password ⟨hclean, by omega, hclean', hlong⟩
    · intro hno
      have hnot : ∀ {p : Prop}, FieldClean usernameDelimiter (skipWhiteSpaces file).2 →
          ((usernameField file).length = 256 ∨ (usernameField file).length ≤ 255 ∧
            FieldClean newline (behindField usernameDelimiter (skipWhiteSpaces file).2) ∧
            (passwordField file).length = 256) → p :=
        fun hclean hlong => absurd ⟨hspec, hclean, hlong⟩ hno
      obtain ⟨m₁, hlevel, hparse⟩ := parseUser_level (m := m) hspec
      -- an accepted line has fields that fit
      have haccepted : (parseUser m file).1 = 0 →
          (usernameField file).length ≤ 255 ∧ (passwordField file).length ≤ 255 ∧
          ((parseUser m file).2.1.username.length ≤ maxUsernameLen ∧
            (∃ i < 256, (parseUser m file).2.1 i = 0) ∧
            (parseUser m file).2.1.password.length ≤ maxPasswordLen ∧
            ∃ i < 256, (parseUser m file).2.1 (passwordOffset + i) = 0) ∧
          (parseUser m file).2.1.accessLevel = some (specifiedLevel (skipWhiteSpaces file).1) := by
        intro hok
        rw [hparse] at hok ⊢
        rcases parseFields_limits m₁ (skipWhiteSpaces file).2 _ hlevel with
          ⟨hclean, hlen, hclean', hlen', -, hrecord⟩ | ⟨hne, -⟩
        · have hn : (usernameField file).length ≤ 255 := by
            rcases Nat.lt_or_eq_of_le hlen with hlt | heq
            · exact Nat.le_of_lt_succ hlt
            · exact hnot hclean (.inl heq)
          have hw : (passwordField file).length ≤ 255 := by
            rcases Nat.lt_or_eq_of_le hlen' with hlt | heq
            · exact Nat.le_of_lt_succ hlt
            · exact hnot hclean (.inr ⟨hn, hclean', heq⟩)
          exact ⟨hn, hw, hrecord hn hw⟩
        · exact absurd hok hne
      refine ⟨?_, ?_, fun hok => (haccepted hok).2.2.1, fun hok => (haccepted hok).2.2.2, ?_⟩
      · rw [hname]
        rintro ⟨hclean, hlong⟩
        exact hnot hclean (.inl hlong)
      · rw [hword]
        rintro ⟨hclean, hlen, hclean', hlong⟩
        rcases Nat.lt_or_eq_of_le hlen with hlt | heq
        · exact hnot hclean (.inr ⟨Nat.le_of_lt_succ hlt, hclean', hlong⟩)
        · exact hnot hclean (.inl heq)
      · intro hlong hok
        obtain ⟨hn, hw, -⟩ := haccepted hok
        unfold maxUsernameLen maxPasswordLen at hlong
        omega
  · have hne := parseUser_unspecified (m := m) hspec
    have hstores : usernameStores file = [] ∧ passwordStores m file = [] :=
      ⟨if_neg hspec, if_neg hspec⟩
    refine iff_of_true ⟨?_, ?_, fun h => absurd h hne, fun h => absurd h hne, fun _ => hne⟩
      fun h => hspec h.1
    · rw [hstores.1]
      exact nofun
    · rw [hstores.2]
      exact nofun

/-- The line of a user `u` with a password of 256 letters: its terminator falls on the access
level. -/
theorem long_password_becomes_admin : ∃ (m : UserMemory) (file : List Byte),
    file = 35 :: 117 :: 58 :: (List.replicate 256 97 ++ [10]) ∧
    (parseUser m file).1 = 0 ∧ (parseUser m file).2.1.accessLevel = some .admin ∧
    ¬ LimitsKept m file := by
  have hrun : (parseUser (fun _ => 0) (35 :: 117 :: 58 :: (List.replicate 256 97 ++ [10]))).1 = 0 ∧
      (parseUser (fun _ => 0) (35 :: 117 :: 58 :: (List.replicate 256 97 ++ [10]))).2.1.accessLevel =
        some .admin := by decide +kernel
  refine ⟨fun _ => 0, _, rfl, hrun.1, hrun.2, fun h => ?_⟩
  have hlevel := h.level hrun.1
  rw [hrun.2] at hlevel
  exact absurd hlevel (by decide)

end SocksProxy
