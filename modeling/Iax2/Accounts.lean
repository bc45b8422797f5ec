import Iax2.Lib.Table
import Iax2.Lib.Text
import Iax2.Softphone

/-!
# The accounts of the softphone

`parse_accounts` of `softphone.rs` and the arguments of its `main`. A file of accounts has a header
in brackets for each account and `key = value` lines under it. The pass over the lines keeps the
header it is under with the values so far, and pushes an account at the next header and at the end.

A text is a list of characters. `lower` stands for `str::to_lowercase`, whose tables are not part of
the model.
-/

namespace Iax2

/-- `Config::new`. The label is a field of `Account` here. -/
def Config.new (username secret : List Char) : Config where
  username := String.ofList username
  secret := String.ofList secret
  refresh := 60
  audioFormat := Format.ulaw

/-- An account, with the label that `Config` has in the source. -/
structure Account where
  name : List Char
  cfg : Config
  host : List Char
  port : UInt16

namespace Accounts

/-- The values under a header. -/
abbrev Kv := Table (List Char) (List Char)

def iaxPortDefault : UInt16 := 4569

/-! ## The keys -/

def host : List Char := ['h', 'o', 's', 't']
def user : List Char := ['u', 's', 'e', 'r']
def secret : List Char := ['s', 'e', 'c', 'r', 'e', 't']
def port : List Char := ['p', 'o', 'r', 't']
def refresh : List Char := ['r', 'e', 'f', 'r', 'e', 's', 'h']

/-! ## Lines -/

/-- `str::lines`: a line ends at a line feed, with a carriage return before it or not. Text after the
last one is a line too. -/
def lines : List Char → List (List Char)
  | [] => []
  | '\n' :: text => [] :: lines text
  | '\r' :: '\n' :: text => [] :: lines text
  | c :: text =>
    match lines text with
    | [] => [[c]]
    | line :: rest => (c :: line) :: rest

def trim (line : List Char) : List Char := Text.trim isWhitespace line

/-- What is left without an opening bracket in front and a closing one at the end. -/
def stripBrackets : List Char → Option (List Char)
  | '[' :: rest => if rest.getLast? = some ']' then some rest.dropLast else none
  | _ => none

/-- `parse::<u16>`. -/
def parseU16 (word : List Char) : Option UInt16 :=
  ((parseUsize word).filter (· < 2 ^ 16)).map UInt16.ofNat

/-! ## The pass -/

/-- The value of a key that an account has to have. -/
def need (name : List Char) (kv : Kv) (key : List Char) : Except (List Char) (List Char) :=
  match kv.lookup key with
  | some value => .ok value
  | none => .error ('[' :: name ++ "] missing ".toList ++ key)

def flush (cur : Option (List Char × Kv)) (out : List Account) :
    Except (List Char) (List Account) :=
  match cur with
  | none => .ok out
  | some (name, kv) => do
    let host ← need name kv host
    let user ← need name kv user
    let secret ← need name kv secret
    let port := ((kv.lookup port).bind parseU16).getD iaxPortDefault
    let refresh := ((kv.lookup refresh).bind parseU16).getD 60
    let cfg := { Config.new user secret with refresh := refresh }
    .ok (out ++ [{ name := name, cfg := cfg, host := host, port := port }])

variable (lower : List Char → List Char)

/-- The loop over the lines, `cur` being the open header and `out` the accounts so far. -/
def parseLines : List (List Char) → Option (List Char × Kv) → List Account →
    Except (List Char) (List Account)
  | [], cur, out => flush cur out
  | raw :: raws, cur, out =>
    let line := trim raw
    if line = [] ∨ line.head? = some '#' ∨ line.head? = some ';' then
      parseLines raws cur out
    else
      match stripBrackets line with
      | some name => do
        let out ← flush cur out
        parseLines raws (some (trim name, ∅)) out
      | none =>
        match Text.splitOnce '=' line with
        | some (k, v) =>
          let cur := cur.map fun c => (c.1, c.2.insert (lower (trim k)) (trim v))
          parseLines raws cur out
        | none => parseLines raws cur out

def parseAccounts (text : List Char) : Except (List Char) (List Account) :=
  parseLines lower (lines text) none []

/-! ## The arguments -/

/-- Why the program stops before it has an account. -/
inductive Refusal
  | usage
  | noAccount
  | config (e : List Char)

/-- The accounts of a command line: those of a file, or one spelled out. `file` says which names are
files, and gives the text or why it cannot be read. -/
def fromArgs (file : List Char → Option (Except (List Char) (List Char)))
    (args : List (List Char)) : Except Refusal (List Account) :=
  match args with
  | [] | [_] => .error .usage
  | _ :: path :: rest =>
    match file path with
    | some text =>
      match text.bind (parseAccounts lower) with
      | .ok [] => .error .noAccount
      | .ok accounts => .ok accounts
      | .error e => .error (.config e)
    | none =>
      match rest with
      | user :: secret :: options =>
        let port := ((options[0]?).bind parseU16).getD iaxPortDefault
        let refresh := ((options[1]?).bind parseU16).getD 60
        let cfg := { Config.new user secret with refresh := refresh }
        .ok [{ name := (options[2]?).getD path, cfg := cfg, host := path, port := port }]
      | _ => .error .usage

end Accounts

end Iax2
