import SocksProxy.Lib.CString
import SocksProxy.Server.Users

/-! The users file: how it is read when the server starts and written when it stops. -/
namespace SocksProxy

def adminAccessLevelSpecifier : Int8 := 64
def userAccessLevelSpecifier : Int8 := 35
def usernameDelimiter : Int8 := 58
def newline : Int8 := 10

def maxUsernameLen : ℕ := 255
def maxPasswordLen : ℕ := 255

/-- `fgetc` into a `char`: the end of the file is `-1`, and so is byte 255. -/
def fgetc : List Byte → Int8 × List Byte
  | [] => (-1, [])
  | b :: file => (b.toInt8, file)

/-- `isspace` in the C locale, false for every negative value. -/
def isspace (c : Int8) : Bool := c = 32 || (9 ≤ c && c ≤ 13)

def skipLine : List Byte → Int8 × List Byte
  | [] => fgetc []
  | b :: file =>
    let c := b.toInt8
    if 0 ≤ c ∧ c ≠ newline then skipLine file else (c, file)

def skipWhiteSpaces : List Byte → Int8 × List Byte
  | [] => fgetc []
  | b :: file =>
    let c := b.toInt8
    if isspace c then skipWhiteSpaces file else (c, file)

/-- `user_t` as memory: 256 bytes of username, 256 of password and the access level. A store
past the end of one lands on the next. -/
abbrev UserMemory := ℕ → Byte

namespace UserMemory

def passwordOffset : ℕ := 256
def accessLevelOffset : ℕ := 512

def username (m : UserMemory) : List Byte := cString m 516 0
def password (m : UserMemory) : List Byte := cString m 260 passwordOffset
def accessLevel (m : UserMemory) : Option AccessLevel := AccessLevel.ofByte (m accessLevelOffset)

def setAccessLevel (m : UserMemory) (level : Byte) : UserMemory :=
  storeBytes m accessLevelOffset [level, 0, 0, 0]

end UserMemory

open UserMemory

/-- The loop over the username, at its `n`-th byte. An error is a return from `parse_user`. -/
def parseUsername (m : UserMemory) (n : ℕ) :
    List Byte → Except (ℤ × List Byte) (UserMemory × List Byte)
  | [] => .ok (Function.update m n 0, [])
  | b :: file =>
    let c := b.toInt8
    if 0 ≤ c ∧ c ≠ usernameDelimiter then
      if c < minimunPrintableAscii ∨ maxUsernameLen < n then
        if c ≠ newline then .error ((skipLine file).1.toInt, (skipLine file).2)
        else .error (1, file)
      else parseUsername (Function.update m n b) (n + 1) file
    else .ok (Function.update m n 0, file)

def parsePassword (m : UserMemory) (n : ℕ) :
    List Byte → Except (ℤ × List Byte) (UserMemory × List Byte)
  | [] => .ok (Function.update m (passwordOffset + n) 0, [])
  | b :: file =>
    let c := b.toInt8
    if 0 ≤ c ∧ c ≠ newline then
      if c < minimunPrintableAscii ∨ maxPasswordLen < n then
        .error ((skipLine file).1.toInt, (skipLine file).2)
      else parsePassword (Function.update m (passwordOffset + n) b) (n + 1) file
    else .ok (Function.update m (passwordOffset + n) 0, file)

/-- The part of `parse_user` after the access level specifier. -/
def parseFields (m : UserMemory) (file : List Byte) : ℤ × UserMemory × List Byte :=
  match parseUsername m 0 file with
  | .error (result, file) => (result, m, file)
  | .ok (m, file) =>
    match parsePassword m 0 file with
    | .error (result, file) => (result, m, file)
    | .ok (m, file) => (0, m, file)

/-- The result, the record and the rest of the file. The record counts only with result 0. -/
def parseUser (m : UserMemory) (file : List Byte) : ℤ × UserMemory × List Byte :=
  let (c, file) := skipWhiteSpaces file
  if c < 0 then (-1, m, file)
  else if c = adminAccessLevelSpecifier then parseFields (m.setAccessLevel 0) file
  else if c = userAccessLevelSpecifier then parseFields (m.setAccessLevel 1) file
  else (1, m, file)

/-- The loop of `load_users`; nothing when it is still running after `fuel` turns. -/
def loadUsersLoop : ℕ → UserMemory → List Byte → Users → Option Users
  | 0, _, _, _ => none
  | fuel + 1, m, file, users =>
    let (result, m, file) := parseUser m file
    let users :=
      if result = 0 then (users.userCreate (some m.username) (some m.password) m.accessLevel).2
      else users
    if 0 ≤ result then loadUsersLoop fuel m file users else some users

/-- `load_users`, with the memory of `parsed_user`. A missing file loads nothing. -/
def loadUsers (m : UserMemory) (file : Option (List Byte)) (users : Users) : Option Users :=
  match file with
  | none => some users
  | some file => loadUsersLoop (file.length + 1) m file users

/-- The line that `save_users` prints for a record. -/
def userLine (u : User) : List Byte :=
  (if u.accessLevel = .admin then 64 else 35) :: (u.username ++ 58 :: (u.password ++ [10]))

/-- The file that `save_users` leaves once its stream has been written out; an empty table leaves it
alone. -/
def saveUsers (users : Users) (file : Option (List Byte)) : Option (List Byte) :=
  if users.length = 0 then file else some (users.flatMap userLine)

end SocksProxy
