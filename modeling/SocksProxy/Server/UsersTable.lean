import SocksProxy.Lib.CappedMap
import SocksProxy.Server.Users

/-! The users table in memory, an array and its size: every call on it is the call on the
list of its records, which is in turn the call on a finite map. -/
namespace SocksProxy

/-- `users` and `users_size`. The array has 50 records, the strings of which are C strings
of at most 255 bytes. -/
structure UsersTable where
  users : ℕ → User
  usersSize : ℕ

namespace UsersTable

/-- The loop of `get_user_index`, at index `i` with `n` records left. -/
def getUserIndexLoop (t : UsersTable) (username : List Byte) : ℕ → ℕ → Option ℕ
  | 0, _ => none
  | n + 1, i =>
    if (t.users i).username = username then some i else getUserIndexLoop t username n (i + 1)

def getUserIndex (t : UsersTable) (username : List Byte) : Option ℕ :=
  t.getUserIndexLoop username t.usersSize 0

def userCreate (t : UsersTable) (username password : Option (List Byte))
    (accessLevel : Option AccessLevel) : UserStatus × UsersTable :=
  match username, password, accessLevel with
  | none, _, _ => (.invalidUsername, t)
  | _, none, _ => (.invalidPassword, t)
  | _, _, none => (.invalidAccessLevel, t)
  | some username, some password, some level =>
    if maxUsersRegistered ≤ t.usersSize then (.maxUsersReached, t)
    else if (t.getUserIndex username).isSome then (.userAlreadyExists, t)
    else (.ok, ⟨Function.update t.users t.usersSize ⟨username, password, level⟩, t.usersSize + 1⟩)

def userLogin (t : UsersTable) (username password : List Byte) :
    UserStatus × Option AccessLevel :=
  match t.getUserIndex username with
  | none => (.userNotFound, none)
  | some i =>
    if (t.users i).password = password then (.ok, some (t.users i).accessLevel)
    else (.wrongPassword, none)

def userChangePassword (t : UsersTable) (username password : Option (List Byte)) :
    UserStatus × UsersTable :=
  match username, password with
  | none, _ => (.invalidUsername, t)
  | _, none => (.invalidPassword, t)
  | some username, some password =>
    match t.getUserIndex username with
    | none => (.userNotFound, t)
    | some i =>
      (.ok, { t with users := Function.update t.users i { t.users i with password := password } })

/-- The `memmove` of the records behind `i`, one place down. -/
def moveDown (t : UsersTable) (i : ℕ) : ℕ → User := fun j =>
  if i ≤ j ∧ j < t.usersSize - 1 then t.users (j + 1) else t.users j

def userDelete (t : UsersTable) (username : Option (List Byte)) : UserStatus × UsersTable :=
  match username.bind t.getUserIndex with
  | none => (.invalidUsername, t)
  | some i =>
    (.ok, ⟨if i < t.usersSize - 1 then t.moveDown i else t.users, t.usersSize - 1⟩)

def view (t : UsersTable) : Users := (List.range t.usersSize).map t.users

variable (t : UsersTable) (username password : List Byte)

@[simp] theorem length_view : t.view.length = t.usersSize := by
  simp [view]

theorem getElem_view {i : ℕ} (h : i < t.view.length) : t.view[i] = t.users i := by
  simp [view]

theorem getUserIndexLoop_eq (n i : ℕ) : t.getUserIndexLoop username n i =
    (((List.range' i n).map t.users).findIdx? (fun u => u.username == username)).map (· + i) := by
  induction n generalizing i with
  | zero => rfl
  | succ n ih =>
    rw [getUserIndexLoop, List.range'_succ, List.map_cons, List.findIdx?_cons, ih]
    by_cases hu : (t.users i).username = username
    · simp [hu]
    · rw [if_neg hu, if_neg (by simpa using hu), Option.map_map]
      congr 1
      funext j
      exact (Nat.add_right_comm j 1 i).symm

theorem getUserIndex_view : t.getUserIndex username = t.view.getUserIndex username := by
  unfold getUserIndex Users.getUserIndex view
  rw [getUserIndexLoop_eq, List.range_eq_range']
  simp

theorem getUserIndex_lt {i : ℕ} (h : t.getUserIndex username = some i) : i < t.usersSize := by
  rw [getUserIndex_view] at h
  obtain ⟨hlt, -⟩ := List.findIdx?_eq_some_iff_getElem.mp h
  rwa [length_view] at hlt

theorem view_push (u : User) :
    view ⟨Function.update t.users t.usersSize u, t.usersSize + 1⟩ = t.view ++ [u] := by
  unfold view
  rw [List.range_succ, List.map_append]
  change _ ++ [Function.update t.users t.usersSize u t.usersSize] = _
  rw [Function.update_self]
  congr 1
  refine List.map_congr_left ?_
  intro i hi
  exact Function.update_of_ne (List.mem_range.mp hi).ne _ _

/-- A record overwritten by those behind it; the last one is only left out. -/
theorem view_remove {i : ℕ} (h : i < t.usersSize) :
    view ⟨if i < t.usersSize - 1 then t.moveDown i else t.users, t.usersSize - 1⟩ =
      t.view.eraseIdx i := by
  have hlen : (t.view.eraseIdx i).length = t.usersSize - 1 := by
    rw [List.length_eraseIdx_of_lt (by rwa [length_view]), length_view]
  refine List.ext_getElem (by rw [hlen, length_view]) ?_
  intro j hj hj'
  rw [hlen] at hj'
  rw [getElem_view, List.getElem_eraseIdx]
  by_cases hin : j < i
  · rw [dif_pos hin, getElem_view]
    change (if i < t.usersSize - 1 then t.moveDown i else t.users) j = t.users j
    split_ifs
    · exact if_neg (by omega)
    · rfl
  · rw [dif_neg hin, getElem_view, if_pos (by omega)]
    exact if_pos (by omega)

/-! Each call, seen through the records in use. -/

theorem userCreate_view (username password : Option (List Byte)) (level : Option AccessLevel) :
    (t.userCreate username password level).1 = (t.view.userCreate username password level).1 ∧
    (t.userCreate username password level).2.view =
      (t.view.userCreate username password level).2 := by
  unfold userCreate Users.userCreate
  cases username with
  | none => exact ⟨rfl, rfl⟩
  | some username =>
    cases password with
    | none => exact ⟨rfl, rfl⟩
    | some password =>
      cases level with
      | none => exact ⟨rfl, rfl⟩
      | some level =>
        simp only [length_view, getUserIndex_view]
        split_ifs
        · exact ⟨rfl, rfl⟩
        · exact ⟨rfl, rfl⟩
        · exact ⟨rfl, t.view_push ⟨username, password, level⟩⟩

theorem userLogin_view :
    t.userLogin username password = t.view.userLogin username password := by
  unfold userLogin Users.userLogin
  rw [← getUserIndex_view]
  cases h : t.getUserIndex username with
  | none => rfl
  | some i =>
    have hlt := t.getUserIndex_lt username h
    have hget : t.view[i]? = some (t.users i) := by
      rw [List.getElem?_eq_getElem (by rwa [length_view]), getElem_view]
    rw [Option.bind_some, hget]

theorem userChangePassword_view (username password : Option (List Byte)) :
    (t.userChangePassword username password).1 =
      (t.view.userChangePassword username password).1 ∧
    (t.userChangePassword username password).2.view =
      (t.view.userChangePassword username password).2 := by
  unfold userChangePassword Users.userChangePassword
  cases username with
  | none => exact ⟨rfl, rfl⟩
  | some username =>
    cases password with
    | none => exact ⟨rfl, rfl⟩
    | some password =>
      simp only [← getUserIndex_view]
      cases h : t.getUserIndex username with
      | none => exact ⟨rfl, rfl⟩
      | some i =>
        refine ⟨rfl, List.ext_getElem (by simp) ?_⟩
        intro j hj hj'
        rw [getElem_view, List.getElem_modify, getElem_view]
        by_cases hij : i = j
        · subst hij
          rw [if_pos rfl]
          exact Function.update_self _ _ _
        · rw [if_neg hij]
          exact Function.update_of_ne (Ne.symm hij) _ _

theorem userDelete_view (username : Option (List Byte)) :
    (t.userDelete username).1 = (t.view.userDelete username).1 ∧
    (t.userDelete username).2.view = (t.view.userDelete username).2 := by
  unfold userDelete Users.userDelete
  rw [show t.view.getUserIndex = t.getUserIndex from
    funext fun username => (t.getUserIndex_view username).symm]
  cases h : username.bind t.getUserIndex with
  | none => exact ⟨rfl, rfl⟩
  | some i =>
    obtain ⟨name, -, hname⟩ := Option.bind_eq_some_iff.mp h
    exact ⟨rfl, t.view_remove (t.getUserIndex_lt name hname)⟩

end UsersTable

/-! The specification: a finite map from usernames, in the order of their creation. -/

abbrev UserMap := CappedMap (List Byte) (List Byte × AccessLevel) maxUsersRegistered

namespace UserMap

def create (m : UserMap) (username password : List Byte) : Option AccessLevel → UserStatus × UserMap
  | none => (.invalidAccessLevel, m)
  | some level =>
    if maxUsersRegistered ≤ m.keys.length then (.maxUsersReached, m)
    else match m.insert username (password, level) with
      | none => (.userAlreadyExists, m)
      | some m' => (.ok, m')

def login (m : UserMap) (username password : List Byte) : UserStatus × Option AccessLevel :=
  match m.value username with
  | none => (.userNotFound, none)
  | some (p, level) => if p = password then (.ok, some level) else (.wrongPassword, none)

def changePassword (m : UserMap) (username password : List Byte) : UserStatus × UserMap :=
  match m.value username with
  | none => (.userNotFound, m)
  | some (_, level) =>
    match m.set username (password, level) with
    | none => (.userNotFound, m)
    | some m' => (.ok, m')

def delete (m : UserMap) (username : List Byte) : UserStatus × UserMap :=
  match m.erase username with
  | none => (.invalidUsername, m)
  | some m' => (.ok, m')

end UserMap

/-- The list of records stands for the map. -/
abbrev Users.Refines (users : Users) (m : UserMap) : Prop :=
  CappedMap.Represents User.username (fun u => (u.password, u.accessLevel)) users m

namespace Users

variable {users : Users} {m : UserMap} {username : List Byte}

theorem Refines.getUserIndex_eq_none (h : users.Refines m) :
    users.getUserIndex username = none ↔ username ∉ m.keys :=
  h.findIdx?_eq_none fun _ => beq_iff_eq

theorem Refines.getUserIndex_eq_some (h : users.Refines m) {i : ℕ}
    (hi : users.getUserIndex username = some i) : ∃ hlt : i < users.length,
      users[i].username = username ∧ username ∈ m.keys ∧
      m.value username = some (users[i].password, users[i].accessLevel) :=
  h.findIdx?_eq_some (fun _ => beq_iff_eq) hi

theorem Refines.value_eq_none (h : users.Refines m) (hi : users.getUserIndex username = none) :
    m.value username = none := by
  have hmem := mt (m.mem_keys username).mpr (h.getUserIndex_eq_none.mp hi)
  simpa using hmem

theorem Refines.create (h : users.Refines m) (username password : List Byte)
    (level : Option AccessLevel) :
    (users.userCreate (some username) (some password) level).1 =
      (m.create username password level).1 ∧
    Refines (users.userCreate (some username) (some password) level).2
      (m.create username password level).2 := by
  unfold userCreate UserMap.create
  cases level with
  | none => exact ⟨rfl, h⟩
  | some level =>
    simp only [h.length]
    by_cases hfull : maxUsersRegistered ≤ m.keys.length
    · rw [if_pos hfull, if_pos hfull]
      exact ⟨rfl, h⟩
    · rw [if_neg hfull, if_neg hfull]
      cases hi : users.getUserIndex username with
      | some i =>
        obtain ⟨-, -, hmem, -⟩ := h.getUserIndex_eq_some hi
        rw [CappedMap.insert_eq_none hmem]
        exact ⟨rfl, h⟩
      | none =>
        have hmem := h.getUserIndex_eq_none.mp hi
        obtain ⟨m', hins⟩ := CappedMap.exists_insert (password, level) hmem (not_le.mp hfull)
        rw [hins]
        exact ⟨rfl, h.insert hins rfl rfl⟩

theorem Refines.login (h : users.Refines m) (username password : List Byte) :
    users.userLogin username password = m.login username password := by
  unfold userLogin UserMap.login
  cases hi : users.getUserIndex username with
  | none =>
    rw [h.value_eq_none hi]
    rfl
  | some i =>
    obtain ⟨hlt, -, -, hval⟩ := h.getUserIndex_eq_some hi
    rw [hval, Option.bind_some, List.getElem?_eq_getElem hlt]

theorem Refines.changePassword (h : users.Refines m) (username password : List Byte) :
    (users.userChangePassword (some username) (some password)).1 =
      (m.changePassword username password).1 ∧
    Refines (users.userChangePassword (some username) (some password)).2
      (m.changePassword username password).2 := by
  unfold userChangePassword UserMap.changePassword
  simp only
  cases hi : users.getUserIndex username with
  | none =>
    rw [h.value_eq_none hi]
    exact ⟨rfl, h⟩
  | some i =>
    obtain ⟨hlt, hname, hmem, hval⟩ := h.getUserIndex_eq_some hi
    obtain ⟨m', hset⟩ := CappedMap.exists_set (password, users[i].accessLevel) hmem
    simp only [hval, hset, true_and]
    exact h.set hset hlt hname (fun _ => rfl) rfl

theorem Refines.delete (h : users.Refines m) (username : List Byte) :
    (users.userDelete (some username)).1 = (m.delete username).1 ∧
    Refines (users.userDelete (some username)).2 (m.delete username).2 := by
  unfold userDelete UserMap.delete
  rw [Option.bind_some]
  cases hi : users.getUserIndex username with
  | none =>
    have herase : m.erase username = none := if_neg (h.getUserIndex_eq_none.mp hi)
    rw [herase]
    exact ⟨rfl, h⟩
  | some i =>
    obtain ⟨hlt, hname, hmem, -⟩ := h.getUserIndex_eq_some hi
    obtain ⟨m', herase⟩ := CappedMap.exists_erase hmem
    rw [herase]
    exact ⟨rfl, h.erase herase hlt hname⟩

end Users

/-! Sequences of calls. -/

inductive UserCall
  | create (username password : List Byte) (accessLevel : Option AccessLevel)
  | login (username password : List Byte)
  | changePassword (username password : List Byte)
  | delete (username : List Byte)

/-- What a call gives back: the status, and the level that a login writes. -/
abbrev UserResult := UserStatus × Option AccessLevel

def UsersTable.call (t : UsersTable) : UserCall → UserResult × UsersTable
  | .create u p l => (((t.userCreate (some u) (some p) l).1, none), (t.userCreate (some u) (some p) l).2)
  | .login u p => (t.userLogin u p, t)
  | .changePassword u p =>
    (((t.userChangePassword (some u) (some p)).1, none),
      (t.userChangePassword (some u) (some p)).2)
  | .delete u => (((t.userDelete (some u)).1, none), (t.userDelete (some u)).2)

def UserMap.call (m : UserMap) : UserCall → UserResult × UserMap
  | .create u p l => (((m.create u p l).1, none), (m.create u p l).2)
  | .login u p => (m.login u p, m)
  | .changePassword u p => (((m.changePassword u p).1, none), (m.changePassword u p).2)
  | .delete u => (((m.delete u).1, none), (m.delete u).2)

def runCalls {σ : Type} (call : σ → UserCall → UserResult × σ) :
    σ → List UserCall → List UserResult × σ
  | s, [] => ([], s)
  | s, c :: cs => ((call s c).1 :: (runCalls call (call s c).2 cs).1,
    (runCalls call (call s c).2 cs).2)

def UsersTable.Refines (t : UsersTable) (m : UserMap) : Prop := t.view.Refines m

/-- The step lemma: one call gives the result of the map and keeps the relation, and a
refused one leaves the table as it was. -/
theorem UsersTable.Refines.call {t : UsersTable} {m : UserMap} (h : t.Refines m) (c : UserCall) :
    (t.call c).1 = (m.call c).1 ∧ (t.call c).2.Refines (m.call c).2 ∧
      ((t.call c).1.1 ≠ .ok → (t.call c).2 = t) := by
  cases c with
  | create u p l =>
    obtain ⟨hst, hview⟩ := t.userCreate_view (some u) (some p) l
    obtain ⟨hres, href⟩ := Users.Refines.create h u p l
    refine ⟨?_, ?_, ?_⟩
    · exact congrArg (·, none) (hst.trans hres)
    · unfold UsersTable.Refines
      exact hview ▸ href
    · unfold UsersTable.call UsersTable.userCreate
      cases l with
      | none => exact fun _ => rfl
      | some l =>
        simp only
        split_ifs
        · exact fun _ => rfl
        · exact fun _ => rfl
        · exact fun hne => absurd rfl hne
  | login u p =>
    refine ⟨?_, h, fun _ => rfl⟩
    exact (t.userLogin_view u p).trans (Users.Refines.login h u p)
  | changePassword u p =>
    obtain ⟨hst, hview⟩ := t.userChangePassword_view (some u) (some p)
    obtain ⟨hres, href⟩ := Users.Refines.changePassword h u p
    refine ⟨congrArg (·, none) (hst.trans hres), ?_, ?_⟩
    · unfold UsersTable.Refines
      exact hview ▸ href
    · unfold UsersTable.call UsersTable.userChangePassword
      simp only
      cases t.getUserIndex u with
      | none => exact fun _ => rfl
      | some i => exact fun hne => absurd rfl hne
  | delete u =>
    obtain ⟨hst, hview⟩ := t.userDelete_view (some u)
    obtain ⟨hres, href⟩ := Users.Refines.delete h u
    refine ⟨congrArg (·, none) (hst.trans hres), ?_, ?_⟩
    · unfold UsersTable.Refines
      exact hview ▸ href
    · change (t.userDelete (some u)).1 ≠ .ok → (t.userDelete (some u)).2 = t
      unfold UsersTable.userDelete
      rw [Option.bind_some]
      cases t.getUserIndex u with
      | none => exact fun _ => rfl
      | some i => exact fun hne => absurd rfl hne

theorem UsersTable.Refines.run {t : UsersTable} {m : UserMap} (h : t.Refines m)
    (cs : List UserCall) : (runCalls UsersTable.call t cs).1 = (runCalls UserMap.call m cs).1 ∧
      (runCalls UsersTable.call t cs).2.Refines (runCalls UserMap.call m cs).2 := by
  induction cs generalizing t m with
  | nil => exact ⟨rfl, h⟩
  | cons c cs ih =>
    obtain ⟨hres, href, -⟩ := h.call c
    obtain ⟨hrest, hend⟩ := ih href
    exact ⟨congrArg₂ List.cons hres hrest, hend⟩

theorem UsersTable.Refines.distinct {t : UsersTable} {m : UserMap} (h : t.Refines m) :
    (t.view.map User.username).Nodup ∧ t.usersSize ≤ maxUsersRegistered := by
  have hlen := CappedMap.Represents.length h
  rw [length_view] at hlen
  exact ⟨CappedMap.Represents.nodup h, hlen ▸ m.bounded⟩

/-- Every sequence of calls on the empty table answers like the map; the names stay
distinct, the table stays within its array and a refused call changes nothing. -/
theorem users_table_refines_map (memory : ℕ → User) (cs : List UserCall) :
    let r := runCalls UsersTable.call ⟨memory, 0⟩ cs
    r.1 = (runCalls UserMap.call CappedMap.empty cs).1 ∧
      r.2.Refines (runCalls UserMap.call CappedMap.empty cs).2 ∧
      (r.2.view.map User.username).Nodup ∧ r.2.usersSize ≤ maxUsersRegistered ∧
      ∀ c, (r.2.call c).1.1 ≠ .ok → (r.2.call c).2 = r.2 := by
  have hempty : UsersTable.Refines ⟨memory, 0⟩ CappedMap.empty := CappedMap.represents_empty _ _
  obtain ⟨hres, href⟩ := hempty.run cs
  obtain ⟨hnodup, hsize⟩ := href.distinct
  exact ⟨hres, href, hnodup, hsize, fun c => (href.call c).2.2⟩

end SocksProxy
