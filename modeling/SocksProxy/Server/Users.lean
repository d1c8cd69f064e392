import Mathlib.Data.List.Nodup
import SocksProxy.System.Syscall

/-! The users table: the first `users_size` records, whose fields are C strings. -/
namespace SocksProxy

inductive UserStatus
  | ok
  | invalidAccessLevel
  | wrongUsername
  | invalidUsername
  | wrongPassword
  | invalidPassword
  | userAlreadyExists
  | userNotFound
  | maxUsersReached
  | ioError
  | nomemError
  | unknownError
deriving DecidableEq, Repr

def maxUsersRegistered : ℕ := 50

def minimunPrintableAscii : Int8 := 32

structure User where
  username : List Byte
  password : List Byte
  accessLevel : AccessLevel
deriving DecidableEq, Repr

abbrev Users := List User

/-- The values of the enumeration; any other byte is no access level. -/
def AccessLevel.ofByte (b : Byte) : Option AccessLevel :=
  if b = 0 then some .admin else if b = 1 then some .user else none

namespace Users

def getUserIndex (users : Users) (username : List Byte) : Option ℕ :=
  users.findIdx? (fun u => u.username == username)

/-- A null pointer is an absent string. An absent level stands for a value that is
neither `ADMIN` nor `USER`. -/
def userCreate (users : Users) (username password : Option (List Byte))
    (accessLevel : Option AccessLevel) : UserStatus × Users :=
  match username, password, accessLevel with
  | none, _, _ => (.invalidUsername, users)
  | _, none, _ => (.invalidPassword, users)
  | _, _, none => (.invalidAccessLevel, users)
  | some username, some password, some level =>
    if maxUsersRegistered ≤ users.length then (.maxUsersReached, users)
    else if (users.getUserIndex username).isSome then (.userAlreadyExists, users)
    else (.ok, users ++ [⟨username, password, level⟩])

/-- The output level is written on success only. -/
def userLogin (users : Users) (username password : List Byte) :
    UserStatus × Option AccessLevel :=
  match (users.getUserIndex username).bind (users[·]?) with
  | none => (.userNotFound, none)
  | some u => if u.password = password then (.ok, some u.accessLevel) else (.wrongPassword, none)

theorem userLogin_ok {users : Users} {username password : List Byte}
    (h : (users.userLogin username password).1 = .ok) :
    ∃ level, users.userLogin username password = (.ok, some level) := by
  unfold userLogin at h ⊢
  cases hu : (users.getUserIndex username).bind (users[·]?) with
  | none => simp [hu] at h
  | some u =>
    by_cases hp : u.password = password
    · exact ⟨u.accessLevel, by simp [hp]⟩
    · simp [hu, hp] at h

/-- The user that the table has under the name has this password. -/
def HasUser (users : Users) (username password : List Byte) : Prop :=
  ∃ user, users.find? (fun u => u.username == username) = some user ∧ user.password = password

theorem getUserIndex_find (users : Users) (username : List Byte) :
    (users.getUserIndex username).bind (users[·]?) = users.find? (fun u => u.username == username) := by
  unfold getUserIndex
  induction users with
  | nil => rfl
  | cons u users ih =>
    rw [List.findIdx?_cons, List.find?_cons]
    cases hu : u.username == username with
    | true => rfl
    | false =>
      rw [← ih]
      exact Option.bind_map ..

theorem userLogin_ok_iff {users : Users} {username password : List Byte} :
    (users.userLogin username password).1 = .ok ↔ users.HasUser username password := by
  unfold userLogin HasUser
  rw [getUserIndex_find]
  cases users.find? (fun u => u.username == username) with
  | none => simp
  | some u =>
    by_cases hp : u.password = password <;> simp [hp]

/-- No two users share a name, so the password is looked up among all of them. -/
theorem hasUser_iff {users : Users} {username password : List Byte}
    (h : (users.map User.username).Nodup) :
    users.HasUser username password ↔
      ∃ user ∈ users, user.username = username ∧ user.password = password := by
  constructor
  · rintro ⟨user, hfind, hpassword⟩
    exact ⟨user, List.mem_of_find?_eq_some hfind, by simpa using List.find?_some hfind, hpassword⟩
  · rintro ⟨user, hmem, hname, hpassword⟩
    refine ⟨user, ?_, hpassword⟩
    cases hfind : users.find? (fun u => u.username == username) with
    | none => simpa [hname] using List.find?_eq_none.mp hfind user hmem
    | some other =>
      have hother : other.username = username := by simpa using List.find?_some hfind
      rw [List.inj_on_of_nodup_map h (List.mem_of_find?_eq_some hfind) hmem (hother.trans hname.symm)]

/-- The scan `while (c != NULL)` over a string and its terminator: its only way
out is a `char` below 32. -/
def scanRefuses (s : List Byte) : Bool :=
  (s ++ [0]).any (fun b => decide (b.toInt8 < minimunPrintableAscii))

def validUser (username password : Option (List Byte)) : UserStatus :=
  if username.any scanRefuses then .unknownError
  else if password.any scanRefuses then .unknownError
  else .ok

def userChangePassword (users : Users) (username password : Option (List Byte)) :
    UserStatus × Users :=
  match username, password with
  | none, _ => (.invalidUsername, users)
  | _, none => (.invalidPassword, users)
  | some username, some password =>
    match users.getUserIndex username with
    | none => (.userNotFound, users)
    | some i => (.ok, users.modify i (fun u => { u with password := password }))

def userDelete (users : Users) (username : Option (List Byte)) : UserStatus × Users :=
  match username.bind users.getUserIndex with
  | none => (.invalidUsername, users)
  | some i => (.ok, users.eraseIdx i)

variable {users : Users} {username password : Option (List Byte)} {level : Option AccessLevel}

/-- The scan never gets past the terminator. -/
theorem scanRefuses_eq_true (s : List Byte) : scanRefuses s = true := by
  unfold scanRefuses
  rw [List.any_append]
  apply Bool.or_eq_true_iff.mpr
  exact .inr rfl

theorem validUser_ne_ok (username password : List Byte) :
    validUser (some username) (some password) ≠ .ok := by
  unfold validUser
  rw [if_pos (show (some username).any scanRefuses = true from scanRefuses_eq_true username)]
  exact nofun

theorem userCreate_ok_iff : (users.userCreate username password level).1 = .ok ↔
    ∃ u p l, username = some u ∧ password = some p ∧ level = some l ∧
      users.length < maxUsersRegistered ∧ users.getUserIndex u = none := by
  constructor
  · intro h
    unfold userCreate at h
    split at h
    · cases h
    · cases h
    · cases h
    · rename_i u p l
      split_ifs at h with hroom hnew
      have hnone : users.getUserIndex u = none := by
        rw [Option.isSome_iff_ne_none, not_not] at hnew
        exact hnew
      exact ⟨u, p, l, rfl, rfl, rfl, Nat.lt_of_not_le hroom, hnone⟩
  · rintro ⟨u, p, l, rfl, rfl, rfl, hroom, hnew⟩
    unfold userCreate
    simp only
    rw [if_neg (Nat.not_le_of_lt hroom), hnew, if_neg nofun]

theorem userDelete_ok_iff : (users.userDelete username).1 = .ok ↔
    ∃ u, username = some u ∧ users.getUserIndex u ≠ none := by
  unfold userDelete
  constructor
  · intro h
    cases hi : username.bind users.getUserIndex with
    | none =>
      rw [hi] at h
      cases h
    | some i =>
      obtain ⟨u, hu, hiu⟩ := Option.bind_eq_some_iff.mp hi
      refine ⟨u, hu, ?_⟩
      rw [hiu]
      exact nofun
  · rintro ⟨u, rfl, hu⟩
    obtain ⟨i, hi⟩ := Option.ne_none_iff_exists'.mp hu
    rw [Option.bind_some, hi]

theorem userChangePassword_ok_iff : (users.userChangePassword username password).1 = .ok ↔
    ∃ u p, username = some u ∧ password = some p ∧ users.getUserIndex u ≠ none := by
  unfold userChangePassword
  constructor
  · intro h
    cases username with
    | none => cases h
    | some u =>
      cases password with
      | none => cases h
      | some p =>
        refine ⟨u, p, rfl, rfl, fun hi => ?_⟩
        simp only [hi] at h
        cases h
  · rintro ⟨u, p, rfl, rfl, hu⟩
    obtain ⟨i, hi⟩ := Option.ne_none_iff_exists'.mp hu
    simp only [hi]

/-! What each operation leaves in the table. -/

theorem mem_userCreate {u : User} (h : u ∈ (users.userCreate username password level).2) :
    u ∈ users ∨ username = some u.username ∧ password = some u.password := by
  unfold userCreate at h
  split at h
  · exact .inl h
  · exact .inl h
  · exact .inl h
  · split_ifs at h
    · exact .inl h
    · exact .inl h
    · rcases List.mem_append.mp h with h | h
      · exact .inl h
      · obtain rfl := List.mem_singleton.mp h
        exact .inr ⟨rfl, rfl⟩

theorem mem_userDelete {u : User} (h : u ∈ (users.userDelete username).2) : u ∈ users := by
  unfold userDelete at h
  split at h
  · exact h
  · exact List.mem_of_mem_eraseIdx h

theorem mem_userChangePassword {u : User}
    (h : u ∈ (users.userChangePassword username password).2) :
    u ∈ users ∨ username = some u.username ∧ password = some u.password := by
  unfold userChangePassword at h
  split at h
  · exact .inl h
  · exact .inl h
  · rename_i name word
    cases hi : users.getUserIndex name with
    | none =>
      simp only [hi] at h
      exact .inl h
    | some i =>
      simp only [hi] at h
      obtain ⟨k, hk, hget⟩ := List.mem_iff_getElem.mp h
      have hk' : k < users.length := by
        rwa [List.length_modify] at hk
      rw [List.getElem_modify] at hget
      split_ifs at hget with hik
      · obtain ⟨hlt, hname, -⟩ := List.findIdx?_eq_some_iff_getElem.mp hi
        subst hik
        subst hget
        exact .inr ⟨congrArg some (eq_of_beq hname).symm, rfl⟩
      · rw [← hget]
        exact .inl (List.getElem_mem hk')

end Users

end SocksProxy
