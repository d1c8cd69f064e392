import Mathlib.Data.List.TakeWhile
import SocksProxy.Lib.SignedByte
import SocksProxy.Server.UsersFile

/-! The format of the users file, line by line, and what becomes of a line when the file is
read. -/
namespace SocksProxy

open UserMemory

/-! The format. -/

/-- Neither a control character nor outside ASCII. -/
def printable (b : Byte) : Bool := 32 ≤ b.toNat && b.toNat < 128

def isSpecifier (b : Byte) : Bool := b = 64 || b = 35

def isBlank (b : Byte) : Bool := b = 32 || (9 ≤ b.toNat && b.toNat ≤ 13)

def specified (b : Byte) : AccessLevel := if b = 64 then .admin else .user

/-- What a line holds after its specifier: a username, `:` and a password. -/
def bodyRecord (level : AccessLevel) (body : List Byte) : Option User :=
  match body.dropWhile (· ≠ 58) with
  | [] => none
  | _ :: password =>
    let username := body.takeWhile (· ≠ 58)
    if username.all printable && password.all printable then some ⟨username, password, level⟩
    else none

def lineRecord (line : List Byte) : Option User :=
  match line.dropWhile isBlank with
  | [] => none
  | c :: body => if isSpecifier c then bodyRecord (specified c) body else none

/-- A user is installed unless the table is full or has the name already. -/
def Users.install (users : Users) (u : User) : Users :=
  if users.length < maxUsersRegistered ∧ u.username ∉ users.map User.username then users ++ [u]
  else users

def installAll (users : Users) (records : List User) : Users := records.foldl Users.install users

def fileRecords (file : List Byte) : List User := (file.splitOn 10).filterMap lineRecord

/-! The lines that are read as the format says. -/

/-- What the loops over the fields get through: a username and a password with the delimiter
between them or, at the end of the file, a username alone. Each may be one character longer than
its limit. -/
def accepted (last : Bool) (body : List Byte) : Bool :=
  let username := body.takeWhile (· ≠ 58)
  username.all printable && username.length ≤ maxUsernameLen + 1 &&
  match body.dropWhile (· ≠ 58) with
  | [] => last
  | _ :: password => password.all printable && password.length ≤ maxPasswordLen + 1

/-- A line of ASCII. If it starts with a specifier, it has a user whose fields fit, or none and
nothing is accepted. If not, nothing is accepted after the specifier where it is resumed. -/
def lineSound (last : Bool) (line : List Byte) : Bool :=
  line.all (·.toNat < 128) &&
  match line.dropWhile isBlank with
  | [] => true
  | c :: body =>
    if isSpecifier c then
      match bodyRecord (specified c) body with
      | some u => u.username.length ≤ maxUsernameLen && u.password.length ≤ maxPasswordLen
      | none => !accepted last body
    else
      match body.dropWhile (!isSpecifier ·) with
      | [] => true
      | _ :: rest => !accepted last rest

def FileSound (file : List Byte) : Prop :=
  (∀ line ∈ (file.splitOn 10).dropLast, lineSound false line = true) ∧
    ∀ line ∈ (file.splitOn 10).getLast?, lineSound true line = true

instance (file : List Byte) : Decidable (FileSound file) := inferInstanceAs (Decidable (_ ∧ _))

/-! Reading. -/

theorem userCreate_install (users : Users) (u : User) :
    (users.userCreate (some u.username) (some u.password) (some u.accessLevel)).2 =
      users.install u := by
  have hidx : (users.getUserIndex u.username).isSome = true ↔
      u.username ∈ users.map User.username := by
    unfold Users.getUserIndex
    rw [List.findIdx?_isSome, List.any_eq_true, List.mem_map]
    simp
  unfold Users.userCreate Users.install
  simp only [hidx]
  by_cases hfull : maxUsersRegistered ≤ users.length
  · rw [if_pos hfull, if_neg fun hin => not_lt.mpr hfull hin.1]
  · rw [if_neg hfull]
    by_cases hmem : u.username ∈ users.map User.username
    · rw [if_pos hmem, if_neg fun hin => hin.2 hmem]
    · rw [if_neg hmem, if_pos ⟨not_le.mp hfull, hmem⟩]

/-- The loop of `load_users` ends with these users. -/
def Loads (m : UserMemory) (file : List Byte) (users users' : Users) : Prop :=
  ∃ fuel, loadUsersLoop fuel m file users = some users'

theorem loadUsersLoop_mono {fuel fuel' : ℕ} {m : UserMemory} {file : List Byte}
    {users users' : Users} (h : loadUsersLoop fuel m file users = some users')
    (hle : fuel ≤ fuel') : loadUsersLoop fuel' m file users = some users' := by
  induction fuel generalizing fuel' m file users with
  | zero => cases h
  | succ fuel ih =>
    obtain ⟨k, rfl⟩ : ∃ k, fuel' = k + 1 := ⟨fuel' - 1, by omega⟩
    unfold loadUsersLoop at h ⊢
    generalize parseUser m file = r at h ⊢
    obtain ⟨result, m', file'⟩ := r
    simp only at h ⊢
    by_cases hr : 0 ≤ result
    · rw [if_pos hr] at h ⊢
      exact ih h (Nat.le_of_succ_le_succ hle)
    · rw [if_neg hr] at h ⊢
      exact h

variable {m m' : UserMemory} {file file' line body rest : List Byte} {users users' : Users}
  {result : ℤ} {b c : Byte} {t : List Byte}

theorem Loads.skip (hp : parseUser m file = (result, m', file')) (h0 : result ≠ 0)
    (hr : 0 ≤ result) (h : Loads m' file' users users') : Loads m file users users' := by
  obtain ⟨fuel, hfuel⟩ := h
  refine ⟨fuel + 1, ?_⟩
  unfold loadUsersLoop
  simp only [hp]
  rw [if_neg h0, if_pos hr]
  exact hfuel

theorem Loads.record {u : User} (hp : parseUser m file = (0, m', file'))
    (hu : m'.username = u.username ∧ m'.password = u.password ∧
      m'.accessLevel = some u.accessLevel)
    (h : Loads m' file' (users.install u) users') : Loads m file users users' := by
  obtain ⟨fuel, hfuel⟩ := h
  refine ⟨fuel + 1, ?_⟩
  unfold loadUsersLoop
  simp only [hp, hu.1, hu.2.1, hu.2.2, userCreate_install]
  exact hfuel

theorem Loads.stop (hp : parseUser m file = (result, m', file')) (hr : result < 0) :
    Loads m file users users := by
  refine ⟨1, ?_⟩
  unfold loadUsersLoop
  simp only [hp]
  rw [if_neg hr.ne, if_neg (not_le.mpr hr)]

theorem Loads.nil (m : UserMemory) (users : Users) : Loads m [] users users := ⟨1, rfl⟩

/-! Characters of a line. -/

theorem char_nonneg (hb : b.toNat < 128) : 0 ≤ b.toInt8 := SignedByte.nonneg_iff.mpr hb

theorem char_eq (b c : Byte) : b.toInt8 = c.toInt8 ↔ b = c := SignedByte.inj

theorem char_control (hb : b.toNat < 128) : b.toInt8 < minimunPrintableAscii ↔ b.toNat < 32 :=
  SignedByte.lt_iff hb (show (32 : Byte).toNat < 128 by decide)

theorem char_inside (hb : b.toNat < 128) (hne : b ≠ 10) : 0 ≤ b.toInt8 ∧ b.toInt8 ≠ newline :=
  ⟨char_nonneg hb, fun he => hne ((char_eq b 10).mp he)⟩

theorem isspace_toInt8 (b : Byte) : isspace b.toInt8 = isBlank b := by
  have h32 : b.toInt8 = 32 ↔ b = 32 := char_eq b 32
  have hrange : 9 ≤ b.toInt8 ∧ b.toInt8 ≤ 13 ↔ 9 ≤ b.toNat ∧ b.toNat ≤ 13 := by
    have hlt := b.toNat_lt
    rw [Int8.le_iff_toInt_le, Int8.le_iff_toInt_le, SignedByte.toInt_toInt8]
    change 9 ≤ _ ∧ _ ≤ 13 ↔ _
    split_ifs <;> omega
  rw [Bool.eq_iff_iff]
  simp only [isspace, isBlank, Bool.or_eq_true, Bool.and_eq_true, decide_eq_true_eq, h32, hrange]

/-- What follows a line: the end of the file, or a newline and more. -/
inductive Tail : List Byte → Prop
  | eof : Tail []
  | newline (rest : List Byte) : Tail (10 :: rest)

def Plain (line : List Byte) : Prop := ∀ b ∈ line, b.toNat < 128 ∧ b ≠ 10

theorem Plain.tail (h : Plain (b :: line)) : Plain line := fun x hx => h x (List.mem_cons_of_mem b hx)

theorem Plain.behind (h : Plain (line ++ b :: body)) : Plain body :=
  fun x hx => h x (List.mem_append_right line (List.mem_cons_of_mem b hx))

theorem Tail.fgetc_ne (ht : Tail t) : (fgetc t).1.toInt ≠ 0 := by
  cases ht with
  | eof => decide
  | newline rest => exact (by decide : (10 : Int8).toInt ≠ 0)

theorem skipLine_line (ht : Tail t) (h : Plain line) : skipLine (line ++ t) = fgetc t := by
  induction line with
  | nil =>
    cases ht with
    | eof => rfl
    | newline rest => rfl
  | cons b line ih =>
    obtain ⟨hb, hne⟩ := h b List.mem_cons_self
    rw [List.cons_append, skipLine, if_pos (char_inside hb hne)]
    exact ih h.tail

theorem skipWhiteSpaces_blank (h : ∀ b ∈ line, isBlank b = true) :
    skipWhiteSpaces (line ++ file) = skipWhiteSpaces file := by
  induction line with
  | nil => rfl
  | cons b line ih =>
    rw [List.cons_append, skipWhiteSpaces, isspace_toInt8, if_pos (h b List.mem_cons_self)]
    exact ih fun x hx => h x (List.mem_cons_of_mem b hx)

theorem skipWhiteSpaces_stop (h : isBlank b = false) :
    skipWhiteSpaces (b :: file) = (b.toInt8, file) := by
  rw [skipWhiteSpaces, isspace_toInt8, h]
  rfl

theorem parsePassword_cons (hb : b.toNat < 128) (hne : b ≠ 10) (n : ℕ) :
    parsePassword m n (b :: file) =
      if b.toNat < 32 ∨ maxPasswordLen < n then
        .error ((skipLine file).1.toInt, (skipLine file).2)
      else parsePassword (Function.update m (passwordOffset + n) b) (n + 1) file := by
  rw [parsePassword, if_pos (char_inside hb hne)]
  simp only [char_control hb]

theorem parsePassword_line (ht : Tail t) {n : ℕ} (hn : n ≤ 256) (h : Plain line) :
    (line.all printable = true ∧ n + line.length ≤ 256 ∧ parsePassword m n (line ++ t) =
      .ok (Function.update (storeBytes m (passwordOffset + n) line)
        (passwordOffset + n + line.length) 0, (fgetc t).2)) ∨
    ((line.all printable = false ∨ 256 < n + line.length) ∧
      parsePassword m n (line ++ t) = .error ((fgetc t).1.toInt, (fgetc t).2)) := by
  induction line generalizing m n with
  | nil =>
    refine .inl ⟨rfl, hn, ?_⟩
    cases ht with
    | eof => rfl
    | newline rest => rfl
  | cons b line ih =>
    obtain ⟨hb, hne⟩ := h b List.mem_cons_self
    rw [List.cons_append, parsePassword_cons hb hne]
    by_cases hbad : b.toNat < 32 ∨ maxPasswordLen < n
    · rw [if_pos hbad, skipLine_line ht h.tail]
      refine .inr ⟨?_, rfl⟩
      rcases hbad with hctl | hfull
      · left
        rw [List.all_cons]
        simp [printable, hctl]
      · right
        rw [List.length_cons]
        unfold maxPasswordLen at hfull
        omega
    · obtain ⟨hpr, hfit⟩ := not_or.mp hbad
      rw [if_neg hbad]
      have hprint : printable b = true := by simp [printable, hb, not_lt.mp hpr]
      have hn' : n + 1 ≤ 256 := by
        unfold maxPasswordLen at hfit
        omega
      rcases ih (m := Function.update m (passwordOffset + n) b) hn' h.tail with
        ⟨hall, hlen, heq⟩ | ⟨hno, heq⟩
      · refine .inl ⟨?_, ?_, ?_⟩
        · rw [List.all_cons, hprint, hall]
          rfl
        · rw [List.length_cons]
          omega
        · rw [heq, List.length_cons, storeBytes, show passwordOffset + (n + 1) = passwordOffset + n + 1
            from rfl, show passwordOffset + n + 1 + line.length =
            passwordOffset + n + (line.length + 1) by omega]
      · refine .inr ⟨?_, heq⟩
        rcases hno with hno | hno
        · left
          rw [List.all_cons, hno, Bool.and_false]
        · right
          rw [List.length_cons]
          omega

/-- What the loop over the username comes to on the rest of a line. -/
inductive UsernameLine (m : UserMemory) (n : ℕ) (t body : List Byte)
    (r : Except (ℤ × List Byte) (UserMemory × List Byte)) : Prop
  | delimited (name more : List Byte) : body = name ++ 58 :: more → 58 ∉ name →
      name.all printable = true → n + name.length ≤ 256 →
      r = .ok (Function.update (storeBytes m n name) (n + name.length) 0, more ++ t) →
      UsernameLine m n t body r
  | truncated : t = [] → 58 ∉ body → body.all printable = true → n + body.length ≤ 256 →
      UsernameLine m n t body r
  | malformed (result : ℤ) : result ≠ 0 → (t ≠ [] → 0 ≤ result) →
      (∀ name more, body = name ++ 58 :: more → 58 ∉ name → name.all printable = true →
        256 < n + name.length) → r = .error (result, (fgetc t).2) → UsernameLine m n t body r

theorem Tail.fgetc_nonneg (ht : Tail t) (hne : t ≠ []) : 0 ≤ (fgetc t).1.toInt := by
  cases ht with
  | eof => exact absurd rfl hne
  | newline rest => exact (by decide : 0 ≤ (10 : Int8).toInt)

theorem parseUsername_cons (hb : b.toNat < 128) (hne : b ≠ 10) (hdel : b ≠ 58) (n : ℕ) :
    parseUsername m n (b :: file) =
      if b.toNat < 32 ∨ maxUsernameLen < n then
        .error ((skipLine file).1.toInt, (skipLine file).2)
      else parseUsername (Function.update m n b) (n + 1) file := by
  have hgo : 0 ≤ b.toInt8 ∧ b.toInt8 ≠ usernameDelimiter :=
    ⟨char_nonneg hb, fun he => hdel ((char_eq b 58).mp he)⟩
  rw [parseUsername, if_pos hgo, if_pos (char_inside hb hne).2]
  simp only [char_control hb]

theorem parseUsername_line (ht : Tail t) {n : ℕ} (hn : n ≤ 256) (h : Plain body) :
    UsernameLine m n t body (parseUsername m n (body ++ t)) := by
  induction body generalizing m n with
  | nil =>
    cases ht with
    | eof => exact .truncated rfl List.not_mem_nil rfl hn
    | newline rest =>
      refine .malformed 1 (by decide) (fun _ => by decide) ?_ rfl
      intro name more he
      cases name <;> cases he
  | cons b body ih =>
    obtain ⟨hb, hne⟩ := h b List.mem_cons_self
    rw [List.cons_append]
    by_cases hdel : b = 58
    · subst hdel
      exact .delimited [] body rfl (by simp) rfl hn rfl
    -- a name in front of a delimiter starts with this byte
    have hname : ∀ name more, b :: body = name ++ 58 :: more →
        ∃ name', name = b :: name' ∧ body = name' ++ 58 :: more := by
      intro name more he
      cases name with
      | nil => exact absurd (List.cons.inj he).1 hdel
      | cons b' name' =>
        obtain ⟨rfl, he'⟩ := List.cons.inj he
        exact ⟨name', rfl, he'⟩
    rw [parseUsername_cons hb hne hdel]
    by_cases hbad : b.toNat < 32 ∨ maxUsernameLen < n
    · rw [if_pos hbad, skipLine_line ht h.tail]
      refine .malformed _ ht.fgetc_ne ht.fgetc_nonneg ?_ rfl
      intro name more he _ hall
      obtain ⟨name', rfl, -⟩ := hname name more he
      rcases hbad with hctl | hfull
      · rw [List.all_cons] at hall
        simp only [printable, Bool.and_eq_true, decide_eq_true_eq] at hall
        exact absurd hall.1.1 (not_le.mpr hctl)
      · rw [List.length_cons]
        unfold maxUsernameLen at hfull
        omega
    · obtain ⟨hpr, hfit⟩ := not_or.mp hbad
      have hprint : printable b = true := by simp [printable, hb, not_lt.mp hpr]
      have hn' : n + 1 ≤ 256 := by
        unfold maxUsernameLen at hfit
        omega
      rw [if_neg hbad]
      cases ih (m := Function.update m n b) hn' h.tail with
      | delimited name more hbody hnot hall hlen hr =>
        refine .delimited (b :: name) more (by rw [hbody]; rfl) ?_ ?_ ?_ ?_
        · rw [List.mem_cons, not_or]
          exact ⟨Ne.symm hdel, hnot⟩
        · rw [List.all_cons, hprint, hall]
          rfl
        · rw [List.length_cons]
          omega
        · rw [hr, List.length_cons, storeBytes, Nat.add_right_comm, Nat.add_assoc]
      | truncated hnil hnot hall hlen =>
        refine .truncated hnil ?_ ?_ ?_
        · rw [List.mem_cons, not_or]
          exact ⟨Ne.symm hdel, hnot⟩
        · rw [List.all_cons, hprint, hall]
          rfl
        · rw [List.length_cons]
          omega
      | malformed result h0 hres hlong hr =>
        refine .malformed result h0 hres ?_ hr
        intro name more he hnot hall
        obtain ⟨name', rfl, he'⟩ := hname name more he
        rw [List.all_cons, Bool.and_eq_true] at hall
        have hlen := hlong name' more he' (List.not_mem_of_not_mem_cons hnot) hall.2
        rw [List.length_cons]
        omega

theorem takeWhile_delimiter {name more : List Byte} (hnot : 58 ∉ name) :
    (name ++ 58 :: more).takeWhile (· ≠ 58) = name ∧
      (name ++ 58 :: more).dropWhile (· ≠ 58) = 58 :: more := by
  induction name with
  | nil => exact ⟨rfl, rfl⟩
  | cons b name ih =>
    rw [List.mem_cons, not_or] at hnot
    obtain ⟨hb, hrest⟩ := hnot
    obtain ⟨htake, hdrop⟩ := ih hrest
    have hne : b ≠ 58 := Ne.symm hb
    constructor
    · rw [List.cons_append, List.takeWhile_cons_of_pos (by simpa using hne), htake]
    · rw [List.cons_append, List.dropWhile_cons_of_pos (by simpa using hne), hdrop]

theorem takeWhile_undelimited (hnot : 58 ∉ body) :
    body.takeWhile (· ≠ 58) = body ∧ body.dropWhile (· ≠ 58) = [] := by
  have hall : ∀ b ∈ body, decide (b ≠ 58) = true :=
    fun b hb => decide_eq_true fun he => hnot (he ▸ hb)
  exact ⟨List.takeWhile_eq_self_iff.mpr hall, List.dropWhile_eq_nil_iff.mpr hall⟩

theorem bodyRecord_delimited (level : AccessLevel) {name more : List Byte} (hnot : 58 ∉ name) :
    bodyRecord level (name ++ 58 :: more) =
      if name.all printable && more.all printable then some ⟨name, more, level⟩ else none := by
  unfold bodyRecord
  rw [(takeWhile_delimiter hnot).1, (takeWhile_delimiter hnot).2]

/-- A body without a delimiter holds no record. -/
theorem bodyRecord_some {level : AccessLevel} {u : User} (h : bodyRecord level body = some u) :
    ∃ more, body = u.username ++ 58 :: more ∧ u.password = more ∧ u.accessLevel = level ∧
      58 ∉ u.username ∧ u.username.all printable = true ∧ more.all printable = true := by
  have hsplit := List.takeWhile_append_dropWhile (p := (· ≠ 58)) (l := body)
  have hnot : 58 ∉ body.takeWhile (· ≠ 58) := by
    intro hmem
    have hne := List.mem_takeWhile_imp hmem
    simp at hne
  unfold bodyRecord at h
  cases hd : body.dropWhile (· ≠ 58) with
  | nil =>
    rw [hd] at h
    cases h
  | cons c more =>
    have hc : c = 58 := by
      have hhead := List.head_dropWhile_not (· ≠ 58) (l := body) (by rw [hd]; nofun)
      simp only [hd, List.head_cons] at hhead
      simpa using hhead
    rw [hd] at h hsplit
    simp only at h
    split_ifs at h with hall
    obtain rfl := Option.some.inj h
    rw [Bool.and_eq_true] at hall
    subst hc
    exact ⟨more, hsplit.symm, rfl, rfl, hnot, hall.1, hall.2⟩

theorem zero_notMem (h : line.all printable = true) : 0 ∉ line := by
  intro hmem
  have hz := List.all_eq_true.mp h 0 hmem
  exact absurd hz (by decide)

theorem parsedUser_fields {name word : List Byte} (level : AccessLevel) (hname : 0 ∉ name)
    (hword : 0 ∉ word) (hn : name.length ≤ 255) (hw : word.length ≤ 255)
    (hlevel : m.accessLevel = some level)
    (hm : m' = Function.update (storeBytes (Function.update (storeBytes m 0 name) name.length 0)
      passwordOffset word) (passwordOffset + word.length) 0) :
    m'.username = name ∧ m'.password = word ∧ m'.accessLevel = some level := by
  have hoff : passwordOffset = 256 := rfl
  -- the username and its terminator are in front of the password
  have hfront : ∀ j < passwordOffset,
      m' j = Function.update (storeBytes m 0 name) name.length 0 j := by
    intro j hj
    rw [hm, Function.update_of_ne (by omega), storeBytes_of_lt hj]
  refine ⟨?_, ?_, ?_⟩
  · refine cString_eq ?_ ?_ hname (by omega)
    · intro k hk
      rw [hfront _ (by omega), Function.update_of_ne (by omega)]
      exact storeBytes_get hk
    · rw [hfront _ (by omega), Nat.zero_add]
      exact Function.update_self _ _ _
  · refine cString_eq ?_ ?_ hword (by omega)
    · intro k hk
      rw [hm, Function.update_of_ne (by omega)]
      exact storeBytes_get hk
    · rw [hm]
      exact Function.update_self _ _ _
  · unfold accessLevel at hlevel ⊢
    have hkeep : m' accessLevelOffset = m accessLevelOffset := by
      have hat : accessLevelOffset = 512 := rfl
      rw [hm, Function.update_of_ne (by omega), storeBytes_of_le (by omega),
        Function.update_of_ne (by omega), storeBytes_of_le (by omega)]
    rw [hkeep]
    exact hlevel

theorem parseFields_record (ht : Tail t) (h : Plain body) {level : AccessLevel} {u : User}
    (hlevel : m.accessLevel = some level) (hu : bodyRecord level body = some u)
    (hname : u.username.length ≤ maxUsernameLen) (hword : u.password.length ≤ maxPasswordLen) :
    ∃ m' : UserMemory, (m'.username = u.username ∧ m'.password = u.password ∧
      m'.accessLevel = some u.accessLevel) ∧ parseFields m (body ++ t) = (0, m', (fgetc t).2) := by
  obtain ⟨word, hbody, rfl, rfl, hnot, hall, hprint⟩ := bodyRecord_some hu
  have hdel : 58 ∈ body := by
    rw [hbody]
    exact List.mem_append_right _ List.mem_cons_self
  unfold parseFields
  cases parseUsername_line (m := m) ht (Nat.zero_le 256) h with
  | truncated _ hno _ _ => exact absurd hdel hno
  | malformed result h0 hres hlong hr =>
    have hlen := hlong u.username u.password hbody hnot hall
    unfold maxUsernameLen at hname
    omega
  | delimited name more hbody' hnot' _ hlen hr =>
    obtain ⟨rfl, rfl⟩ : name = u.username ∧ more = u.password := by
      have hsame := hbody'.symm.trans hbody
      have htake := congrArg (List.takeWhile (· ≠ 58)) hsame
      rw [(takeWhile_delimiter hnot).1, (takeWhile_delimiter hnot').1] at htake
      rw [htake] at hsame
      exact ⟨htake, (List.cons.inj (List.append_cancel_left hsame)).2⟩
    have hmore : Plain u.password := (hbody ▸ h).behind
    rw [hr]
    simp only
    rcases parsePassword_line (m := Function.update (storeBytes m 0 u.username)
      (0 + u.username.length) 0) ht (Nat.zero_le 256) hmore with ⟨-, -, hpw⟩ | ⟨hbad, hpw⟩
    · rw [hpw]
      refine ⟨_, ?_, rfl⟩
      refine parsedUser_fields u.accessLevel (zero_notMem hall) (zero_notMem hprint) hname hword
        hlevel ?_
      rw [Nat.zero_add, Nat.add_zero]
    · rcases hbad with hbad | hbad
      · rw [hprint] at hbad
        cases hbad
      · unfold maxPasswordLen at hword
        omega

/-- What the loops do not get through is left out, with the rest of its line. -/
theorem parseFields_refused {last : Bool} (ht : Tail t) (h : Plain body)
    (hlast : t = [] → last = true) (hno : accepted last body = false) (m : UserMemory) :
    ∃ (result : ℤ) (m' : UserMemory), result ≠ 0 ∧ (t ≠ [] → 0 ≤ result) ∧
      parseFields m (body ++ t) = (result, m', (fgetc t).2) := by
  unfold parseFields
  cases parseUsername_line (m := m) ht (Nat.zero_le 256) h with
  | truncated hnil hnot hall hlen =>
    have hyes : accepted last body = true := by
      unfold accepted
      rw [(takeWhile_undelimited hnot).1, (takeWhile_undelimited hnot).2]
      rw [Nat.zero_add] at hlen
      simp [hlast hnil, hall, hlen, maxUsernameLen]
    rw [hyes] at hno
    cases hno
  | malformed result h0 hres _ hr =>
    rw [hr]
    exact ⟨result, m, h0, hres, rfl⟩
  | delimited name more hbody hnot hall hlen hr =>
    have hmore : Plain more := (hbody ▸ h).behind
    rw [hr]
    simp only
    rcases parsePassword_line (m := Function.update (storeBytes m 0 name) (0 + name.length) 0) ht
      (Nat.zero_le 256) hmore with ⟨hprint, hword, hpw⟩ | ⟨-, hpw⟩
    · have hyes : accepted last body = true := by
        unfold accepted
        rw [hbody, (takeWhile_delimiter hnot).1, (takeWhile_delimiter hnot).2]
        rw [Nat.zero_add] at hlen hword
        simp [hall, hprint, hlen, hword, maxUsernameLen, maxPasswordLen]
      rw [hyes] at hno
      cases hno
    · rw [hpw]
      exact ⟨_, _, ht.fgetc_ne, ht.fgetc_nonneg, rfl⟩

/-! Lines and files. -/

def Users.installLine (users : Users) (line : List Byte) : Users :=
  ((lineRecord line).map users.install).getD users

theorem accessLevel_set (m : UserMemory) (level : Byte) :
    (m.setAccessLevel level).accessLevel = AccessLevel.ofByte level := by
  have hget : storeBytes m accessLevelOffset [level, 0, 0, 0] (accessLevelOffset + 0) = level :=
    storeBytes_get (Nat.succ_pos _)
  exact congrArg AccessLevel.ofByte hget

theorem parseUser_specified (m : UserMemory) (file : List Byte) (hc : isSpecifier c = true)
    (hblank : ∀ b ∈ line, isBlank b = true) : ∃ m₁ : UserMemory,
      m₁.accessLevel = some (specified c) ∧
      parseUser m (line ++ c :: file) = parseFields m₁ file := by
  have hspec : c = 64 ∨ c = 35 := by
    unfold isSpecifier at hc
    simpa using hc
  rcases hspec with rfl | rfl
  · refine ⟨m.setAccessLevel 0, accessLevel_set m 0, ?_⟩
    unfold parseUser
    rw [skipWhiteSpaces_blank hblank, skipWhiteSpaces_stop rfl]
    rfl
  · refine ⟨m.setAccessLevel 1, accessLevel_set m 1, ?_⟩
    unfold parseUser
    rw [skipWhiteSpaces_blank hblank, skipWhiteSpaces_stop rfl]
    rfl

theorem Loads.nil_inv (h : Loads m [] users users') : users' = users := by
  obtain ⟨fuel, hfuel⟩ := h
  cases fuel with
  | zero => cases hfuel
  | succ fuel => exact (Option.some.inj hfuel).symm

theorem Loads.blank (hb : isBlank b = true) (h : Loads m file users users') :
    Loads m (b :: file) users users' := by
  have hskip : parseUser m (b :: file) = parseUser m file := by
    have hws : skipWhiteSpaces ([b] ++ file) = skipWhiteSpaces file :=
      skipWhiteSpaces_blank (by simpa using hb)
    unfold parseUser
    rw [show b :: file = [b] ++ file from rfl, hws]
  obtain ⟨fuel, hfuel⟩ := h
  cases fuel with
  | zero => cases hfuel
  | succ fuel =>
    refine ⟨fuel + 1, ?_⟩
    unfold loadUsersLoop at hfuel ⊢
    rw [hskip]
    exact hfuel

/-- Characters without a specifier among them are skipped one by one. -/
theorem Loads.unspecified (hline : ∀ b ∈ line, isSpecifier b = false ∧ b.toNat < 128)
    (h : Loads m file users users') : Loads m (line ++ file) users users' := by
  induction line with
  | nil => exact h
  | cons b line ih =>
    have hrest := ih fun x hx => hline x (List.mem_cons_of_mem b hx)
    obtain ⟨hspec, hb⟩ := hline b List.mem_cons_self
    cases hblank : isBlank b with
    | true => exact .blank hblank hrest
    | false =>
      have h64 : b.toInt8 ≠ adminAccessLevelSpecifier := by
        intro he
        rw [(char_eq b 64).mp he] at hspec
        cases hspec
      have h35 : b.toInt8 ≠ userAccessLevelSpecifier := by
        intro he
        rw [(char_eq b 35).mp he] at hspec
        cases hspec
      have hparse : parseUser m (b :: line ++ file) = (1, m, line ++ file) := by
        unfold parseUser
        rw [List.cons_append, skipWhiteSpaces_stop hblank]
        simp only
        rw [if_neg (Int8.not_lt.mpr (char_nonneg hb)), if_neg h64, if_neg h35]
      exact .skip hparse (by decide) (by decide) hrest

theorem isSpecifier_of_blank (h : isBlank b = true) : isSpecifier b = false := by
  cases hs : isSpecifier b with
  | false => rfl
  | true =>
    have hspec : b = 64 ∨ b = 35 := by
      unfold isSpecifier at hs
      simpa using hs
    rcases hspec with rfl | rfl <;> cases h

theorem Loads.refused {last : Bool} (ht : Tail t) (hbody : Plain body) (hc : isSpecifier c = true)
    (hblank : ∀ b ∈ line, isBlank b = true) (hlast : t = [] → last = true)
    (hno : accepted last body = false) (h : ∀ m, Loads m (fgetc t).2 users users') :
    Loads m (line ++ c :: (body ++ t)) users users' := by
  obtain ⟨m₁, -, hparse⟩ := parseUser_specified m (body ++ t) hc hblank
  obtain ⟨result, m', h0, hres, hr⟩ := parseFields_refused ht hbody hlast hno m₁
  by_cases hneg : 0 ≤ result
  · exact .skip (hparse.trans hr) h0 hneg (h m')
  · have hnil : t = [] := not_not.mp (mt hres hneg)
    have hend := h m'
    rw [hnil] at hend
    rw [show users' = users from hend.nil_inv]
    exact .stop (hparse.trans hr) (not_le.mp hneg)

/-- A line that does not start with a specifier is skipped up to the first one, where it is
resumed. -/
theorem Loads.unstarted {last : Bool} (ht : Tail t) (hline : Plain line)
    (hlast : t = [] → last = true)
    (hno : ∀ s rest, line.dropWhile (!isSpecifier ·) = s :: rest → accepted last rest = false)
    (h : ∀ m, Loads m (fgetc t).2 users users') : Loads m (line ++ t) users users' := by
  have hsplit := List.takeWhile_append_dropWhile (p := (!isSpecifier ·)) (l := line)
  have hskipped : ∀ b ∈ line.takeWhile (!isSpecifier ·), isSpecifier b = false ∧ b.toNat < 128 := by
    intro b hb
    refine ⟨by simpa using List.mem_takeWhile_imp hb, (hline b ?_).1⟩
    rw [← hsplit]
    exact List.mem_append_left _ hb
  rw [← hsplit, List.append_assoc]
  apply Loads.unspecified hskipped
  cases hdrop : line.dropWhile (!isSpecifier ·) with
  | nil =>
    cases ht with
    | eof => exact h m
    | newline rest => exact .blank rfl (h m)
  | cons s rest =>
    have hs : isSpecifier s = true := by
      have hhead := List.head_dropWhile_not (!isSpecifier ·) (l := line) (by rw [hdrop]; nofun)
      simpa only [hdrop, List.head_cons, Bool.not_eq_false'] using hhead
    have hrest : Plain rest := by
      rw [← hsplit, hdrop] at hline
      exact hline.behind
    have hturn : Loads m ([] ++ s :: (rest ++ t)) users users' :=
      .refused ht hrest hs nofun hlast (hno s rest hdrop) h
    exact hturn

theorem dropWhile_blank_specifier (h : ∀ b ∈ line, isBlank b = true) (body : List Byte) :
    (line ++ body).dropWhile (!isSpecifier ·) = body.dropWhile (!isSpecifier ·) := by
  induction line with
  | nil => rfl
  | cons b line ih =>
    have hb : isSpecifier b = false := isSpecifier_of_blank (h b List.mem_cons_self)
    rw [List.cons_append, List.dropWhile_cons_of_pos (by simpa using hb)]
    exact ih fun x hx => h x (List.mem_cons_of_mem b hx)

/-- A sound line is read as the format says, whatever follows it. -/
theorem loads_line {last : Bool} (ht : Tail t) (hline : 10 ∉ line) (hs : lineSound last line = true)
    (hlast : t = [] → last = true)
    (h : ∀ m, Loads m (fgetc t).2 (users.installLine line) users') :
    Loads m (line ++ t) users users' := by
  unfold lineSound at hs
  obtain ⟨hascii, hs⟩ := Bool.and_eq_true_iff.mp hs
  have hplain : Plain line := fun b hb =>
    ⟨of_decide_eq_true (List.all_eq_true.mp hascii b hb), fun he => hline (he ▸ hb)⟩
  have hsplit := List.takeWhile_append_dropWhile (p := isBlank) (l := line)
  have hblank : ∀ b ∈ line.takeWhile isBlank, isBlank b = true :=
    fun b hb => List.mem_takeWhile_imp hb
  have hfirst := dropWhile_blank_specifier hblank (line.dropWhile isBlank)
  rw [hsplit] at hfirst
  have hrec : lineRecord line = match line.dropWhile isBlank with
      | [] => none
      | c :: body => if isSpecifier c then bodyRecord (specified c) body else none := rfl
  unfold Users.installLine at h
  cases hdrop : line.dropWhile isBlank with
  | nil =>
    rw [hdrop] at hrec hfirst
    rw [hrec] at h
    refine .unstarted ht hplain hlast ?_ h
    intro s rest hrest
    rw [hfirst] at hrest
    cases hrest
  | cons c body =>
    rw [hdrop] at hs hrec hsplit hfirst
    simp only at hs hrec
    cases hc : isSpecifier c with
    | false =>
      rw [hc] at hs hrec
      rw [hrec] at h
      refine .unstarted ht hplain hlast ?_ h
      intro s rest hrest
      rw [hfirst, List.dropWhile_cons_of_pos (by rw [hc]; rfl)] at hrest
      rw [hrest] at hs
      simpa using hs
    | true =>
      rw [hc, if_pos rfl] at hs hrec
      rw [hrec] at h
      have hwhole : Plain (line.takeWhile isBlank ++ c :: body) := by
        rw [hsplit]
        exact hplain
      have hbody : Plain body := hwhole.behind
      rw [← hsplit, List.append_assoc, List.cons_append]
      cases hu : bodyRecord (specified c) body with
      | none =>
        rw [hu] at hs h
        exact .refused ht hbody hc hblank hlast (by simpa using hs) h
      | some u =>
        rw [hu] at hs h
        obtain ⟨hname, hword⟩ := Bool.and_eq_true_iff.mp hs
        obtain ⟨m₁, hlevel, hparse⟩ := parseUser_specified m (body ++ t) hc hblank
        obtain ⟨m', hm, hr⟩ := parseFields_record ht hbody hlevel hu
          (of_decide_eq_true hname) (of_decide_eq_true hword)
        exact .record (hparse.trans hr) hm (h m')

theorem installAll_lines (users : Users) (lines : List (List Byte)) :
    installAll users (lines.filterMap lineRecord) = lines.foldl Users.installLine users := by
  induction lines generalizing users with
  | nil => rfl
  | cons line lines ih =>
    rw [List.foldl_cons, ← ih]
    unfold Users.installLine
    cases hrec : lineRecord line with
    | none => rw [List.filterMap_cons_none hrec]; rfl
    | some u => rw [List.filterMap_cons_some hrec]; rfl

/-- A sound file is read line by line. The induction follows the newlines. -/
theorem loads_file (m : UserMemory) (users : Users) (hs : FileSound file) :
    Loads m file users (installAll users (fileRecords file)) := by
  have hind : ∀ (n : ℕ) (file : List Byte), file.length ≤ n → FileSound file →
      ∀ (m : UserMemory) (users : Users),
        Loads m file users ((file.splitOn 10).foldl Users.installLine users) := by
    intro n
    induction n with
    | zero =>
      intro file hlen _ m users
      obtain rfl := List.length_eq_zero_iff.mp (Nat.le_zero.mp hlen)
      exact .nil m users
    | succ n ih =>
      intro file hlen hs m users
      obtain ⟨hinit, hlast⟩ := hs
      by_cases hmem : 10 ∈ file
      · obtain ⟨line, rest, rfl, hnot⟩ := List.eq_append_cons_of_mem hmem
        have hsplit : (line ++ 10 :: rest).splitOn 10 = line :: rest.splitOn 10 :=
          List.splitOnP_append_cons_of_forall_mem (p := (· == 10))
            (fun x hx => beq_eq_false_iff_ne.mpr fun he => hnot (he ▸ hx)) 10 rfl rest
        have hne : rest.splitOn 10 ≠ [] := List.splitOnP_ne_nil _ _
        rw [hsplit] at hinit hlast ⊢
        rw [List.dropLast_cons_of_ne_nil hne] at hinit
        rw [List.getLast?_cons_of_ne_nil hne] at hlast
        refine loads_line (.newline rest) hnot (hinit line List.mem_cons_self) nofun ?_
        intro m'
        refine ih rest ?_ ⟨fun l hl => hinit l (List.mem_cons_of_mem line hl), hlast⟩ m' _
        rw [List.length_append, List.length_cons] at hlen
        omega
      · have hsplit : file.splitOn 10 = [file] := List.splitOnP_eq_singleton
          fun x hx => beq_eq_false_iff_ne.mpr fun he => hmem (he ▸ hx)
        rw [hsplit] at hlast ⊢
        have hline : Loads m (file ++ []) users (users.installLine file) :=
          loads_line .eof hmem (hlast file rfl) (fun _ => rfl) (fun m' => .nil m' _)
        rw [List.append_nil] at hline
        exact hline
  unfold fileRecords
  rw [installAll_lines]
  exact hind file.length file le_rfl hs m users

/-! The loop ends on every file. -/

theorem length_skipLine (file : List Byte) : (skipLine file).2.length ≤ file.length := by
  induction file with
  | nil => exact le_rfl
  | cons b file ih =>
    rw [skipLine]
    split_ifs
    · exact ih.trans (Nat.le_succ _)
    · exact Nat.le_succ _

theorem length_skipWhiteSpaces (h : 0 ≤ (skipWhiteSpaces file).1) :
    (skipWhiteSpaces file).2.length < file.length := by
  induction file with
  | nil => exact absurd h (by decide)
  | cons b file ih =>
    rw [skipWhiteSpaces] at h ⊢
    split_ifs at h ⊢
    · exact (ih h).trans (Nat.lt_succ_self _)
    · exact Nat.lt_succ_self _

def leftOver : Except (ℤ × List Byte) (UserMemory × List Byte) → List Byte
  | .error r => r.2
  | .ok r => r.2

theorem length_parseUsername (m : UserMemory) (n : ℕ) (file : List Byte) :
    (leftOver (parseUsername m n file)).length ≤ file.length := by
  induction file generalizing m n with
  | nil => exact le_rfl
  | cons b file ih =>
    rw [parseUsername]
    split_ifs
    · exact (length_skipLine file).trans (Nat.le_succ _)
    · exact Nat.le_succ _
    · exact (ih _ _).trans (Nat.le_succ _)
    · exact Nat.le_succ _

theorem length_parsePassword (m : UserMemory) (n : ℕ) (file : List Byte) :
    (leftOver (parsePassword m n file)).length ≤ file.length := by
  induction file generalizing m n with
  | nil => exact le_rfl
  | cons b file ih =>
    rw [parsePassword]
    split_ifs
    · exact (length_skipLine file).trans (Nat.le_succ _)
    · exact (ih _ _).trans (Nat.le_succ _)
    · exact Nat.le_succ _

theorem length_parseFields (m : UserMemory) (file : List Byte) :
    (parseFields m file).2.2.length ≤ file.length := by
  have hname := length_parseUsername m 0 file
  unfold parseFields
  cases hu : parseUsername m 0 file with
  | error r =>
    rw [hu] at hname
    exact hname
  | ok r =>
    obtain ⟨m₁, rest⟩ := r
    rw [hu] at hname
    have hword := length_parsePassword m₁ 0 rest
    simp only
    cases hp : parsePassword m₁ 0 rest with
    | error r' =>
      rw [hp] at hword
      exact hword.trans hname
    | ok r' =>
      rw [hp] at hword
      exact hword.trans hname

/-- Every call that does not end the loop takes a character. -/
theorem length_parseUser (h : 0 ≤ (parseUser m file).1) :
    (parseUser m file).2.2.length < file.length := by
  unfold parseUser at h ⊢
  have hws : 0 ≤ (skipWhiteSpaces file).1 → (skipWhiteSpaces file).2.length < file.length :=
    length_skipWhiteSpaces
  generalize skipWhiteSpaces file = r at h hws ⊢
  obtain ⟨c, rest⟩ := r
  simp only at h hws ⊢
  by_cases hc : c < 0
  · rw [if_pos hc] at h
    exact absurd (show (0 : ℤ) ≤ -1 from h) (by decide)
  · have hlt := hws (Int8.not_lt.mp hc)
    rw [if_neg hc]
    split_ifs
    · exact (length_parseFields _ rest).trans_lt hlt
    · exact (length_parseFields _ rest).trans_lt hlt
    · exact hlt

theorem loadUsersLoop_total {fuel : ℕ} (m : UserMemory) (users : Users)
    (h : file.length < fuel) : ∃ users', loadUsersLoop fuel m file users = some users' := by
  induction fuel generalizing m file users with
  | zero => exact absurd h (Nat.not_lt_zero _)
  | succ fuel ih =>
    have hlen : 0 ≤ (parseUser m file).1 → (parseUser m file).2.2.length < file.length :=
      length_parseUser
    unfold loadUsersLoop
    generalize parseUser m file = r at hlen ⊢
    obtain ⟨result, m', file'⟩ := r
    simp only at hlen ⊢
    by_cases hr : 0 ≤ result
    · rw [if_pos hr]
      exact ih m' _ ((hlen hr).trans_le (Nat.le_of_lt_succ h))
    · rw [if_neg hr]
      exact ⟨_, rfl⟩

theorem Loads.loadUsers (h : Loads m file users users') :
    loadUsers m (some file) users = some users' := by
  obtain ⟨fuel, hfuel⟩ := h
  obtain ⟨users'', htotal⟩ := loadUsersLoop_total m users (Nat.lt_succ_self file.length)
  have hboth := loadUsersLoop_mono hfuel (Nat.le_max_left fuel (file.length + 1))
  have hboth' := loadUsersLoop_mono htotal (Nat.le_max_right fuel (file.length + 1))
  rw [hboth] at hboth'
  exact htotal.trans hboth'.symm

/-- `load_users` returns on every file, and reads a sound one line by line. -/
theorem load_users_lines (m : UserMemory) (file : List Byte) :
    (∃ users, loadUsers m (some file) [] = some users) ∧
      (FileSound file →
        loadUsers m (some file) [] = some (installAll [] (fileRecords file))) :=
  ⟨loadUsersLoop_total m [] (Nat.lt_succ_self file.length), fun hs => (loads_file m [] hs).loadUsers⟩

/-- The note between the two users is left out, though it is resumed at its `#`. -/
theorem load_users_lines_user :
    loadUsers (fun _ => 0) (some [64, 97, 58, 98, 10, 110, 35, 49, 10, 9, 35, 99, 58, 100]) [] =
      some [⟨[97], [98], .admin⟩, ⟨[99], [100], .user⟩] :=
  (load_users_lines _ _).2 (by decide)

/-- A last line that ends before its `:` installs an administrator without a password. -/
theorem load_users_truncated : ¬ ∀ (m : UserMemory) (file : List Byte),
    loadUsers m (some file) [] = some (installAll [] (fileRecords file)) := by
  intro h
  have hload : loadUsers (fun _ => 0) (some [64, 97]) [] = some [⟨[97], [], .admin⟩] := by decide
  have hformat : installAll [] (fileRecords [64, 97]) = [] := by decide
  have hno := h (fun _ => 0) [64, 97]
  rw [hload, hformat] at hno
  cases hno

/-! A restart of the server. -/

/-- The fields that the format can hold. -/
structure User.Storable (u : User) : Prop where
  username : u.username.length ≤ maxUsernameLen
  password : u.password.length ≤ maxPasswordLen
  printable : u.username.all printable = true ∧ u.password.all printable = true
  delimiter : 58 ∉ u.username

/-- The tables that the server's own limits allow. -/
structure Users.Storable (users : Users) : Prop where
  distinct : (users.map User.username).Nodup
  size : users.length ≤ maxUsersRegistered
  users : ∀ u ∈ users, u.Storable

/-- `users_shutdown`, then `users_init` in a new process. -/
def restart (m : UserMemory) (users : Users) (file : Option (List Byte)) : Option Users :=
  loadUsers m (saveUsers users file) []

def userBody (u : User) : List Byte :=
  (if u.accessLevel = .admin then 64 else 35) :: (u.username ++ 58 :: u.password)

theorem userBody_cons (u : User) : ∃ c, isSpecifier c = true ∧ specified c = u.accessLevel ∧
    isBlank c = false ∧ userBody u = c :: (u.username ++ 58 :: u.password) := by
  obtain ⟨username, password, level⟩ := u
  cases level <;> exact ⟨_, rfl, rfl, rfl, rfl⟩

theorem bodyRecord_storable {u : User} (hu : u.Storable) :
    bodyRecord u.accessLevel (u.username ++ 58 :: u.password) = some u := by
  rw [bodyRecord_delimited u.accessLevel hu.delimiter, hu.printable.1, hu.printable.2]
  rfl

theorem lineRecord_userBody {u : User} (hu : u.Storable) : lineRecord (userBody u) = some u := by
  obtain ⟨c, hc, hlevel, hblank, hcons⟩ := userBody_cons u
  unfold lineRecord
  rw [hcons, List.dropWhile_cons_of_neg (by simpa using hblank)]
  simp only [hc, hlevel, if_true]
  exact bodyRecord_storable hu

theorem userBody_sound {u : User} (hu : u.Storable) : lineSound false (userBody u) = true := by
  have hprint : ∀ bs : List Byte, bs.all printable = true → bs.all (·.toNat < 128) = true := by
    intro bs h
    apply List.all_eq_true.mpr
    intro b hb
    have hpr := List.all_eq_true.mp h b hb
    unfold printable at hpr
    exact (Bool.and_eq_true_iff.mp hpr).2
  obtain ⟨hname, hword⟩ := hu.printable
  have hascii : (userBody u).all (·.toNat < 128) = true := by
    unfold userBody
    rw [List.all_cons, List.all_append, List.all_cons, hprint _ hname, hprint _ hword]
    split_ifs <;> rfl
  have hfit : (decide (u.username.length ≤ maxUsernameLen) &&
      decide (u.password.length ≤ maxPasswordLen)) = true := by
    rw [decide_eq_true hu.username, decide_eq_true hu.password]
    rfl
  obtain ⟨c, hc, hlevel, hblank, hcons⟩ := userBody_cons u
  unfold lineSound
  rw [hascii, hcons, List.dropWhile_cons_of_neg (by simpa using hblank)]
  simp only [hc, hlevel, bodyRecord_storable hu, hfit, if_true, Bool.and_self]

theorem newline_notMem_userBody {u : User} (hu : u.Storable) : 10 ∉ userBody u := by
  have hprint : ∀ bs : List Byte, bs.all printable = true → 10 ∉ bs :=
    fun bs h hb => absurd (List.all_eq_true.mp h 10 hb) (by decide)
  intro hb
  rcases List.mem_cons.mp hb with hb | hb
  · split_ifs at hb <;> exact absurd hb (by decide)
  · rcases List.mem_append.mp hb with hb | hb
    · exact hprint _ hu.printable.1 hb
    · rcases List.mem_cons.mp hb with hb | hb
      · exact absurd hb (by decide)
      · exact hprint _ hu.printable.2 hb

theorem loads_saved (m : UserMemory) (users records : Users) (h : ∀ u ∈ records, u.Storable) :
    Loads m (records.flatMap userLine) users (installAll users records) := by
  induction records generalizing m users with
  | nil => exact .nil m users
  | cons u records ih =>
    have hu := h u List.mem_cons_self
    have hline : userLine u ++ records.flatMap userLine =
        userBody u ++ 10 :: records.flatMap userLine := by
      simp [userLine, userBody]
    rw [List.flatMap_cons, hline]
    refine loads_line (.newline _) (newline_notMem_userBody hu) (userBody_sound hu) nofun ?_
    intro m'
    have hinst : users.installLine (userBody u) = users.install u := by
      unfold Users.installLine
      rw [lineRecord_userBody hu]
      rfl
    rw [hinst]
    exact ih m' _ fun u' hu' => h u' (List.mem_cons_of_mem u hu')

theorem installAll_distinct (users records : Users)
    (hd : ((users ++ records).map User.username).Nodup)
    (hs : (users ++ records).length ≤ maxUsersRegistered) :
    installAll users records = users ++ records := by
  induction records generalizing users with
  | nil => exact (List.append_nil users).symm
  | cons u records ih =>
    have hroom : users.length < maxUsersRegistered := by
      rw [List.length_append, List.length_cons] at hs
      omega
    have hnew : u.username ∉ users.map User.username := by
      rw [List.map_append, List.nodup_append] at hd
      exact fun hmem => hd.2.2 _ hmem _ List.mem_cons_self rfl
    have hinst : users.install u = users ++ [u] := if_pos ⟨hroom, hnew⟩
    change installAll (users.install u) records = _
    rw [hinst]
    rw [List.append_cons] at hd hs
    rw [ih _ hd hs]
    exact (List.append_cons users u records).symm

/-- A table survives the restart, whatever the file held before, exactly when it is not
empty: an empty one leaves the old file to be read again. -/
theorem users_survive_restart (m : UserMemory) {users : Users} (hu : users.Storable) :
    (∀ file, restart m users file = some users) ↔ users ≠ [] := by
  constructor
  · rintro h rfl
    have hback : restart m [] (some [64, 97, 58, 98, 10]) = some [⟨[97], [98], .admin⟩] :=
      (loads_saved m [] [⟨[97], [98], .admin⟩] (by
        intro u hmem
        obtain rfl := List.mem_singleton.mp hmem
        exact ⟨by decide, by decide, by decide, by decide⟩)).loadUsers
    rw [h] at hback
    cases hback
  · intro hne file
    have hlen : users.length ≠ 0 := fun h0 => hne (List.length_eq_zero_iff.mp h0)
    unfold restart saveUsers
    rw [if_neg hlen, (loads_saved m [] users hu.users).loadUsers]
    exact congrArg some (installAll_distinct [] users hu.distinct hu.size)

/-- The restart of a table of three users over a file of another. -/
theorem users_survive_restart_admin :
    restart (fun _ => 0) [⟨[97], [98], .admin⟩, ⟨[99, 35], [58], .user⟩, ⟨[], [], .admin⟩]
      (some [64, 99, 58, 100, 10]) =
      some [⟨[97], [98], .admin⟩, ⟨[99, 35], [58], .user⟩, ⟨[], [], .admin⟩] := by
  have hstorable : Users.Storable
      [⟨[97], [98], .admin⟩, ⟨[99, 35], [58], .user⟩, ⟨[], [], .admin⟩] := by
    refine ⟨by decide, by decide, ?_⟩
    intro u hmem
    simp only [List.mem_cons, List.not_mem_nil, or_false] at hmem
    rcases hmem with rfl | rfl | rfl <;> exact ⟨by decide, by decide, by decide, by decide⟩
  exact (users_survive_restart _ hstorable).mpr nofun _

/-- The last user is deleted and comes back. -/
theorem deleted_user_returns : ¬ ∀ (m : UserMemory) (users : Users) (file : Option (List Byte)),
    users.Storable → restart m users file = some users := by
  intro h
  have hback : restart (fun _ => 0) [] (some [64, 97, 58, 98, 10]) =
      some [⟨[97], [98], .admin⟩] := by decide
  have hempty := h (fun _ => 0) [] (some [64, 97, 58, 98, 10]) ⟨List.nodup_nil, by decide, nofun⟩
  rw [hempty] at hback
  cases hback

end SocksProxy
