import Iax2.Accounts
import Iax2.Lib.Sections
import Mathlib.Data.UInt

/-!
# The file of accounts

The pass of `parse_accounts` reads a file as sections, each a header with the entries under it.
`parse_iff` says what comes out: an account for each section, or the complaint about the first
section that lacks one of its three values. `render` writes accounts as a file, and `files_iff` says
that the accounts that some file gives are those that their own file gives back.
-/

namespace Iax2.Accounts

open Sections Text

variable {lower : List Char → List Char} {text l raw key v : List Char} {a : Account}
  {accounts : List Account} {cur : Option (List Char × Kv)} {out : List Account}
  {entries : List (List Char × List Char)}

/-! ## Sections -/

/-- A header with the entries under it. -/
abbrev Section := List Char × List (List Char × List Char)

/-- What a line is for the pass. -/
def readLine (lower : List Char → List Char) (raw : List Char) :
    Item (List Char) (List Char × List Char) :=
  let line := trim raw
  if line = [] ∨ line.head? = some '#' ∨ line.head? = some ';' then .skip
  else
    match stripBrackets line with
    | some name => .header (trim name)
    | none =>
      match splitOnce '=' line with
      | some (k, v) => .entry (lower (trim k), trim v)
      | none => .skip

def sections (lower : List Char → List Char) (text : List Char) : List Section :=
  groups ((lines text).map (readLine lower))

/-- The value that the last entry for a key gives. -/
def value (key : List Char) (entries : List (List Char × List Char)) : Option (List Char) :=
  (entries.filter fun e => e.1 = key).getLast?.map (·.2)

/-- An account is what a section describes. -/
structure Describes (s : Section) (a : Account) : Prop where
  name : a.name = s.1
  host : value host s.2 = some a.host
  user : value user s.2 = some a.cfg.username.toList
  secret : value secret s.2 = some a.cfg.secret.toList
  port : a.port = ((value port s.2).bind parseU16).getD iaxPortDefault
  refresh : a.cfg.refresh = ((value refresh s.2).bind parseU16).getD 60
  format : a.cfg.audioFormat = Format.ulaw

/-- The first of the three values that a section lacks. -/
def lacks (s : Section) : Option (List Char) :=
  [host, user, secret].find? fun key => value key s.2 = none

/-- The complaint about a value. -/
def missing (name key : List Char) : List Char := '[' :: name ++ "] missing ".toList ++ key

/-! ## The pass is the sections -/

def add (kv : Kv) (e : List Char × List Char) : Kv := kv.insert e.1 e.2

theorem lookup_add (entries : List (List Char × List Char)) (kv : Kv) :
    (entries.foldl add kv).lookup key = (value key entries).or (kv.lookup key) := by
  induction entries using List.reverseRecOn with
  | nil => rfl
  | append_singleton entries e ih =>
    rw [List.foldl_append, List.foldl_cons, List.foldl_nil, add, Table.lookup_insert, value,
      List.filter_append]
    split
    next here =>
      rw [List.filter_cons_of_pos (by simpa using here.symm), List.filter_nil,
        List.getLast?_concat]
      rfl
    next elsewhere =>
      rw [List.filter_cons_of_neg (by simpa using fun h => elsewhere h.symm), List.filter_nil,
        List.append_nil, ih]
      rfl

/-- The account under a header. -/
def close (name : List Char) (kv : Kv) : Except (List Char) Account := do
  let host ← need name kv host
  let user ← need name kv user
  let secret ← need name kv secret
  let port := ((kv.lookup port).bind parseU16).getD iaxPortDefault
  let refresh := ((kv.lookup refresh).bind parseU16).getD 60
  let cfg := { Config.new user secret with refresh := refresh }
  .ok { name := name, cfg := cfg, host := host, port := port }

theorem flush_eq : flush cur out = Sections.flush close cur out := by
  cases cur with
  | none => rfl
  | some c =>
    obtain ⟨name, kv⟩ := c
    rw [flush, Sections.flush, close]
    cases need name kv host with
    | error e => rfl
    | ok host =>
      cases need name kv user with
      | error e => rfl
      | ok user => cases need name kv secret <;> rfl

theorem parseLines_eq (raws : List (List Char)) :
    parseLines lower raws cur out =
      scan add ∅ close (raws.map (readLine lower)) cur out := by
  induction raws generalizing cur out with
  | nil => exact flush_eq
  | cons raw raws ih =>
    rw [parseLines, List.map_cons, readLine]
    by_cases blank : trim raw = [] ∨ (trim raw).head? = some '#' ∨ (trim raw).head? = some ';'
    · rw [if_pos blank, if_pos blank, ih]
      rfl
    · rw [if_neg blank, if_neg blank]
      cases stripBrackets (trim raw) with
      | some name =>
        show (flush cur out).bind _ = (Sections.flush close cur out).bind _
        rw [flush_eq]
        exact congrArg _ (funext fun out => ih)
      | none =>
        cases splitOnce '=' (trim raw) with
        | some e => exact ih
        | none => exact ih

theorem parseAccounts_eq (lower : List Char → List Char) (text : List Char) :
    parseAccounts lower text = (sections lower text).mapM (closeGroup add ∅ close) := by
  rw [parseAccounts, parseLines_eq, scan_eq]
  rfl

theorem lookup_entries (key : List Char) (entries : List (List Char × List Char)) :
    (entries.foldl add ∅).lookup key = value key entries := by
  rw [lookup_add, AList.lookup_empty, Option.or_none]

theorem need_eq (name key : List Char) (entries : List (List Char × List Char)) :
    need name (entries.foldl add ∅) key =
      match value key entries with
      | some v => .ok v
      | none => .error (missing name key) := by
  rw [need, lookup_entries]
  rfl

/-- A section gives an account, or the complaint about the first value it lacks. -/
theorem closeGroup_eq (s : Section) :
    closeGroup add ∅ close s =
      match value host s.2, value user s.2, value secret s.2 with
      | some h, some u, some p =>
        .ok
          { name := s.1, host := h, port := ((value port s.2).bind parseU16).getD iaxPortDefault,
            cfg :=
              { Config.new u p with
                refresh := ((value refresh s.2).bind parseU16).getD 60 } }
      | none, _, _ => .error (missing s.1 host)
      | some _, none, _ => .error (missing s.1 user)
      | some _, some _, none => .error (missing s.1 secret) := by
  rw [closeGroup, close, need_eq, need_eq, need_eq, lookup_entries, lookup_entries]
  cases value host s.2 with
  | none => rfl
  | some h =>
    cases value user s.2 with
    | none => rfl
    | some u => cases value secret s.2 <;> rfl

theorem closeGroup_ok {s : Section} : closeGroup add ∅ close s = .ok a ↔ Describes s a := by
  rw [closeGroup_eq]
  constructor
  · intro h
    split at h
    next host user secret =>
      cases h
      exact ⟨rfl, host, by rw [user, Config.new, String.toList_ofList],
        by rw [secret, Config.new, String.toList_ofList], rfl, rfl, rfl⟩
    all_goals cases h
  · intro d
    rw [d.host, d.user, d.secret]
    refine congrArg Except.ok ?_
    obtain ⟨name, ⟨username, password, refresh, format⟩, host, port⟩ := a
    obtain ⟨rfl, -, -, -, rfl, rfl, rfl⟩ := d
    rw [Config.new, String.ofList_toList, String.ofList_toList]

theorem closeGroup_error {s : Section} {e : List Char} :
    closeGroup add ∅ close s = .error e ↔
      ∃ key, lacks s = some key ∧ e = missing s.1 key := by
  have first : lacks s =
      if value host s.2 = none then some host
      else if value user s.2 = none then some user
      else if value secret s.2 = none then some secret else none := by
    simp only [lacks, List.find?_cons, List.find?_nil]
    grind
  rw [closeGroup_eq, first]
  cases value host s.2 with
  | none => simp [eq_comm]
  | some h =>
    cases value user s.2 with
    | none => simp [eq_comm]
    | some u => cases value secret s.2 <;> simp [eq_comm]

/-- A section that lacks nothing gives an account. -/
theorem closes_iff {s : Section} :
    (∃ a, closeGroup add ∅ close s = .ok a) ↔ lacks s = none := by
  cases closed : closeGroup add ∅ close s with
  | ok a =>
    refine iff_of_true ⟨a, rfl⟩ ?_
    by_contra some
    obtain ⟨key, lack⟩ := Option.ne_none_iff_exists'.mp some
    have failed := closeGroup_error.mpr ⟨key, lack, rfl⟩
    cases closed.symm.trans failed
  | error e =>
    obtain ⟨key, lack, -⟩ := closeGroup_error.mp closed
    exact iff_of_false (fun ⟨_, h⟩ => nomatch h) (by simp [lack])

/-- What a file of accounts comes to. Each section gives its account; or the first section that lacks
a host, a user or a secret gives the complaint, which names the section and the first of the three
that it lacks. -/
theorem parse_iff (lower : List Char → List Char) (text : List Char) :
    (∀ accounts, parseAccounts lower text = .ok accounts ↔
      List.Forall₂ Describes (sections lower text) accounts) ∧
    ∀ e, parseAccounts lower text = .error e ↔
      ∃ before s after key, sections lower text = before ++ s :: after ∧
        (∀ t ∈ before, lacks t = none) ∧ lacks s = some key ∧ e = missing s.1 key := by
  constructor
  · intro accounts
    rw [parseAccounts_eq, mapM_eq_ok]
    simp only [closeGroup_ok]
  · intro e
    rw [parseAccounts_eq, mapM_eq_error]
    constructor
    · rintro ⟨before, s, after, split, fine, fails⟩
      obtain ⟨key, lack, said⟩ := closeGroup_error.mp fails
      exact ⟨before, s, after, key, split, fun t ht => closes_iff.mp (fine t ht), lack, said⟩
    · rintro ⟨before, s, after, key, split, fine, lack, said⟩
      exact ⟨before, s, after, split, fun t ht => closes_iff.mpr (fine t ht),
        closeGroup_error.mpr ⟨key, lack, said⟩⟩

/-! ## Texts that a line can carry -/

/-- No blank at the ends and no line feed. -/
def Clean (l : List Char) : Prop := Trimmed isWhitespace l ∧ '\n' ∉ l

instance (l : List Char) : Decidable (Clean l) := inferInstanceAs (Decidable (_ ∧ _))

theorem Clean.trim (h : Clean l) : trim l = l := h.1.trim_eq

theorem not_mem_of_mem_lines (h : l ∈ lines text) : '\n' ∉ l := by
  fun_induction lines text generalizing l with
  | case1 => cases h
  | case2 text ih =>
    obtain rfl | later := List.mem_cons.mp h
    · exact List.not_mem_nil
    · exact ih later
  | case3 text ih =>
    obtain rfl | later := List.mem_cons.mp h
    · exact List.not_mem_nil
    · exact ih later
  | case4 c text feed _ none ih =>
    obtain rfl := List.mem_singleton.mp h
    exact fun h => feed (List.mem_singleton.mp h).symm
  | case5 c text feed _ line rest more ih =>
    rw [more] at ih
    obtain rfl | later := List.mem_cons.mp h
    · exact List.not_mem_cons_of_ne_of_not_mem (fun h => feed h.symm) (ih List.mem_cons_self)
    · exact ih (List.mem_cons_of_mem _ later)

theorem clean_trim (h : '\n' ∉ l) : Clean (Accounts.trim l) :=
  ⟨trimmed_trim .., fun mem => h (mem_of_mem_trim mem)⟩

theorem eq_of_stripBrackets {name : List Char} (h : stripBrackets l = some name) :
    l = '[' :: (name ++ [']']) := by
  unfold stripBrackets at h
  split at h
  next rest =>
    split at h
    next closed =>
      cases h
      rw [List.dropLast_append_getLast? _ closed]
    next => cases h
  next => cases h

/-- What a line gives is clean. -/
theorem clean_of_readLine (h : '\n' ∉ raw) :
    (∀ name, readLine lower raw = .header name → Clean name) ∧
      ∀ k v, readLine lower raw = .entry (k, v) → Clean v := by
  have line : '\n' ∉ Accounts.trim raw := (clean_trim h).2
  simp only [readLine]
  split
  · exact ⟨fun _ read => (nomatch read), fun _ _ read => (nomatch read)⟩
  · split
    next inner found =>
      refine ⟨fun name read => ?_, fun _ _ read => (nomatch read)⟩
      cases read
      refine clean_trim fun mem => line ?_
      rw [eq_of_stripBrackets found]
      exact List.mem_cons_of_mem _ (List.mem_append_left _ mem)
    next =>
      split
      next key value found =>
        refine ⟨fun _ read => (nomatch read), fun k v read => ?_⟩
        cases read
        refine clean_trim fun mem => line ?_
        rw [eq_append_of_splitOnce found]
        exact List.mem_append_right _ (List.mem_cons_of_mem _ mem)
      next => exact ⟨fun _ read => (nomatch read), fun _ _ read => (nomatch read)⟩

theorem mem_of_value (h : value key entries = some v) : ∃ k, (k, v) ∈ entries := by
  obtain ⟨e, last, rfl⟩ := Option.map_eq_some_iff.mp h
  exact ⟨e.1, List.mem_of_mem_filter (List.mem_of_getLast? last)⟩

/-- An account with texts that lines can carry, and the format that every account starts with. -/
structure WellFormed (a : Account) : Prop where
  name : Clean a.name
  host : Clean a.host
  user : Clean a.cfg.username.toList
  secret : Clean a.cfg.secret.toList
  format : a.cfg.audioFormat = Format.ulaw

theorem wellFormed_of_describes {s : Section} (mem : s ∈ sections lower text)
    (d : Describes s a) : WellFormed a := by
  have clean (line : Item (List Char) (List Char × List Char))
      (h : line ∈ (lines text).map (readLine lower)) :
      (∀ name, line = .header name → Clean name) ∧ ∀ k v, line = .entry (k, v) → Clean v := by
    obtain ⟨raw, there, rfl⟩ := List.mem_map.mp h
    exact clean_of_readLine (not_mem_of_mem_lines there)
  have given := mem_of_group mem
  have filled {key v} (h : value key s.2 = some v) : Clean v := by
    obtain ⟨k, there⟩ := mem_of_value h
    exact (clean _ (given.2 _ there)).2 k v rfl
  exact
    { name := d.name ▸ (clean _ given.1).1 _ rfl
      host := filled d.host
      user := filled d.user
      secret := filled d.secret
      format := d.format }

/-! ## Writing a file -/

/-- Lower case as it is documented for the letters of the keys. -/
def LowersAscii (lower : List Char → List Char) : Prop :=
  ∀ l, (∀ c ∈ l, c.toNat < 128) → lower l = l.map Char.toLower

def digits (n : UInt16) : List Char := Nat.toDigits 10 n.toNat

/-- The entries of an account. -/
def entriesOf (a : Account) : List (List Char × List Char) :=
  [(host, a.host), (user, a.cfg.username.toList), (secret, a.cfg.secret.toList),
    (port, digits a.port), (refresh, digits a.cfg.refresh)]

def writeLine : Item (List Char) (List Char × List Char) → List Char
  | .header name => '[' :: (name ++ [']'])
  | .entry e => e.1 ++ '=' :: e.2
  | .skip => []

/-- A file with the accounts in their order, a line for each value. -/
def render (accounts : List Account) : List Char :=
  (items (accounts.map fun a => (a.name, entriesOf a))).flatMap fun i => writeLine i ++ ['\n']

theorem lines_cons_feed (h : '\n' ∉ l) (ne : l.getLast? ≠ some '\r') (text : List Char) :
    lines (l ++ '\n' :: text) = l :: lines text := by
  induction l with
  | nil => rw [List.nil_append, lines]
  | cons c l ih =>
    obtain ⟨feed, rest⟩ := not_or.mp (mt List.mem_cons.mpr h)
    have next : ∀ t, c = '\r' → l ++ '\n' :: text ≠ '\n' :: t := by
      intro t cr head
      cases l with
      | nil => exact ne (by rw [cr]; rfl)
      | cons d l => exact rest (by cases head; exact List.mem_cons_self)
    have last : l.getLast? ≠ some '\r' := by
      cases l with
      | nil => exact nofun
      | cons d l => simpa using ne
    rw [List.cons_append, lines, ih rest last]
    · exact fun h => feed h.symm
    · exact next

theorem isWhitespace_of_isDigit {c : Char} (h : c.isDigit = true) : isWhitespace c = false := by
  have bounds : 48 ≤ c.toNat ∧ c.toNat ≤ 57 := by
    simpa [Char.isDigit, UInt32.le_iff_toNat_le] using h
  simp only [isWhitespace]
  simp
  omega

theorem digits_isDigit {n : UInt16} {c : Char} (h : c ∈ digits n) : c.isDigit = true :=
  Nat.isDigit_of_mem_toDigits (by decide) (by decide) h

theorem clean_digits (n : UInt16) : Clean (digits n) := by
  refine ⟨⟨fun c h => ?_, fun c h => ?_⟩, fun h => ?_⟩
  · exact isWhitespace_of_isDigit (digits_isDigit (List.mem_of_head? h))
  · exact isWhitespace_of_isDigit (digits_isDigit (List.mem_of_getLast? h))
  · exact absurd (digits_isDigit h) (by decide)

/-- A number that is written is read back. -/
theorem parseU16_digits (n : UInt16) : parseU16 (digits n) = some n := by
  have plus : (digits n).head? ≠ some '+' := fun h =>
    absurd (digits_isDigit (List.mem_of_head? h)) (by decide)
  have some_digit : digits n ≠ [] := Nat.toDigits_ne_nil
  have all : (digits n).all Char.isDigit = true :=
    List.all_eq_true.mpr fun c h => digits_isDigit h
  have number : (digits n).foldl (fun value d => value * 10 + (d.toNat - '0'.toNat)) 0 =
      n.toNat := by
    have := Nat.ofDigitChars_ten_toDigits (n := n.toNat)
    rw [Nat.ofDigitChars_eq_foldl] at this
    rw [digits]
    convert this using 3
    rw [Nat.mul_comm]
  have small : n.toNat < 2 ^ 16 := n.toNat_lt
  rw [parseU16, parseUsize]
  simp only [if_neg plus, if_pos (And.intro some_digit all), number]
  rw [if_pos (by omega), Option.filter_some, if_pos (by simpa using small), Option.map_some,
    UInt16.ofNat_toNat]

theorem readLine_header {name : List Char} (h : Clean name) :
    readLine lower (writeLine (.header name)) = .header name := by
  have trimmed : Accounts.trim ('[' :: (name ++ [']'])) = '[' :: (name ++ [']']) :=
    (Trimmed.of_ends (by decide) (by decide)).trim_eq
  have inner : stripBrackets ('[' :: (name ++ [']'])) = some name := by
    rw [stripBrackets, if_pos List.getLast?_concat, List.dropLast_concat]
  rw [writeLine, readLine]
  simp only [trimmed]
  rw [if_neg (by simp), inner]
  exact congrArg Item.header h.trim

/-- A small letter. -/
def IsLetter (c : Char) : Prop := 97 ≤ c.toNat ∧ c.toNat ≤ 122

instance (c : Char) : Decidable (IsLetter c) := inferInstanceAs (Decidable (_ ∧ _))

theorem IsLetter.ne {c d : Char} (h : IsLetter c) (other : ¬IsLetter d) : c ≠ d :=
  fun same => other (same ▸ h)

theorem IsLetter.not_blank {c : Char} (h : IsLetter c) : isWhitespace c = false := by
  simp only [IsLetter] at h
  simp only [isWhitespace]
  simp
  omega

theorem IsLetter.toLower {c : Char} (h : IsLetter c) : c.toLower = c := by
  have above : ¬c.toNat ≤ 90 := by
    have := h.1
    omega
  have : ¬(c.val ≥ 65 ∧ c.val ≤ 90) := fun range =>
    above (by simpa [UInt32.le_iff_toNat_le] using range.2)
  exact dif_neg (by simpa using this)

/-- A word of small letters. -/
abbrev IsKey (key : List Char) : Prop := key ≠ [] ∧ key.all (IsLetter ·) = true

theorem IsKey.letters (h : IsKey key) : ∀ c ∈ key, IsLetter c := fun c mem =>
  of_decide_eq_true (List.all_eq_true.mp h.2 c mem)

theorem readLine_entry (ascii : LowersAscii lower) (h : IsKey key) (clean : Clean v) :
    readLine lower (writeLine (.entry (key, v))) = .entry (key, v) := by
  have letters := h.letters
  have tail : Trimmed isWhitespace ('=' :: v) := clean.1.cons (by decide)
  have line : Accounts.trim (key ++ '=' :: v) = key ++ '=' :: v :=
    (tail.append fun c mem => (letters c mem).not_blank).trim_eq
  have word : Accounts.trim key = key := by
    have bare : Trimmed isWhitespace (key ++ []) :=
      Trimmed.nil.append fun c mem => (letters c mem).not_blank
    rw [List.append_nil] at bare
    exact bare.trim_eq
  have small : lower key = key := by
    rw [ascii key fun c mem => by have := (letters c mem).2; omega]
    exact (List.map_congr_left fun c mem => (letters c mem).toLower).trans (List.map_id' _)
  have cut : splitOnce '=' (key ++ '=' :: v) = some (key, v) :=
    splitOnce_append (fun mem => (letters _ mem).ne (by decide) rfl) v
  rw [writeLine, readLine]
  simp only [line, cut, word, small, clean.trim]
  cases key with
  | nil => exact absurd rfl h.1
  | cons c key =>
    have letter := letters c List.mem_cons_self
    have open_ : stripBrackets (c :: key ++ '=' :: v) = none := by
      rw [List.cons_append, stripBrackets]
      exact fun rest h => letter.ne (by decide : ¬IsLetter '[') (List.cons.inj h).1
    rw [open_, if_neg]
    simp only [List.cons_append, List.head?_cons, Option.some.injEq, reduceCtorEq, false_or, not_or]
    exact ⟨letter.ne (by decide), letter.ne (by decide)⟩

theorem mem_entriesOf (wf : WellFormed a) {e : List Char × List Char} (h : e ∈ entriesOf a) :
    IsKey e.1 ∧ Clean e.2 := by
  simp only [entriesOf, List.mem_cons, List.not_mem_nil, or_false] at h
  obtain rfl | rfl | rfl | rfl | rfl := h
  · exact ⟨(by decide : IsKey host), wf.host⟩
  · exact ⟨(by decide : IsKey user), wf.user⟩
  · exact ⟨(by decide : IsKey secret), wf.secret⟩
  · exact ⟨(by decide : IsKey port), clean_digits _⟩
  · exact ⟨(by decide : IsKey refresh), clean_digits _⟩

theorem clean_header {name : List Char} (h : Clean name) : Clean (writeLine (.header name)) := by
  refine ⟨Trimmed.of_ends (by decide) (by decide), fun mem => ?_⟩
  obtain feed | mem := List.mem_cons.mp mem
  · exact absurd feed (by decide)
  · obtain mem | feed := List.mem_append.mp mem
    · exact h.2 mem
    · exact absurd (List.mem_singleton.mp feed) (by decide)

theorem clean_entry (h : IsKey key) (clean : Clean v) : Clean (writeLine (.entry (key, v))) := by
  refine ⟨(clean.1.cons (by decide)).append fun c mem => (h.letters c mem).not_blank, fun mem => ?_⟩
  obtain mem | mem := List.mem_append.mp mem
  · exact (h.letters _ mem).ne (by decide : ¬IsLetter '\n') rfl
  · obtain feed | mem := List.mem_cons.mp mem
    · exact absurd feed (by decide)
    · exact clean.2 mem

/-- The items of accounts survive a line. -/
theorem readLine_writeLine (ascii : LowersAscii lower) (wf : ∀ a ∈ accounts, WellFormed a)
    {i : Item (List Char) (List Char × List Char)}
    (h : i ∈ items (accounts.map fun a => (a.name, entriesOf a))) :
    readLine lower (writeLine i) = i ∧ Clean (writeLine i) := by
  obtain ⟨g, mem, what⟩ := mem_items h
  obtain ⟨a, there, rfl⟩ := List.mem_map.mp mem
  obtain rfl | ⟨⟨k, v⟩, entry, rfl⟩ := what
  · exact ⟨readLine_header (wf a there).name, clean_header (wf a there).name⟩
  · obtain ⟨letters, clean⟩ := mem_entriesOf (wf a there) entry
    exact ⟨readLine_entry ascii letters clean, clean_entry letters clean⟩

theorem lines_flatMap {ls : List (List Char)} (clean : ∀ l ∈ ls, Clean l) :
    lines (ls.flatMap fun l => l ++ ['\n']) = ls := by
  induction ls with
  | nil => rfl
  | cons l ls ih =>
    obtain ⟨here, rest⟩ := List.forall_mem_cons.mp clean
    have last : l.getLast? ≠ some '\r' := fun h => absurd (here.1.2 '\r' h) (by decide)
    rw [List.flatMap_cons, List.append_assoc, List.singleton_append,
      lines_cons_feed here.2 last, ih rest]

theorem sections_render (ascii : LowersAscii lower) (wf : ∀ a ∈ accounts, WellFormed a) :
    sections lower (render accounts) = accounts.map fun a => (a.name, entriesOf a) := by
  have back := fun i h => readLine_writeLine (i := i) ascii wf h
  have clean : ∀ l ∈ (items (accounts.map fun a => (a.name, entriesOf a))).map writeLine,
      Clean l := by
    intro l mem
    obtain ⟨i, there, rfl⟩ := List.mem_map.mp mem
    exact (back i there).2
  have same : (items (accounts.map fun a => (a.name, entriesOf a))).map
      (readLine lower ∘ writeLine) = items (accounts.map fun a => (a.name, entriesOf a)) :=
    (List.map_congr_left fun i h => (back i h).1).trans (List.map_id' _)
  rw [sections, render, ← List.flatMap_map writeLine fun l => l ++ ['\n'], lines_flatMap clean,
    List.map_map, same, groups_items]

theorem describes_entriesOf (wf : WellFormed a) : Describes (a.name, entriesOf a) a := by
  have port_back : (value port (entriesOf a)).bind parseU16 = some a.port := parseU16_digits _
  have refresh_back : (value refresh (entriesOf a)).bind parseU16 = some a.cfg.refresh :=
    parseU16_digits _
  exact
    { name := rfl
      host := rfl
      user := rfl
      secret := rfl
      port := by rw [port_back, Option.getD_some]
      refresh := by rw [refresh_back, Option.getD_some]
      format := wf.format }

/-- What a file gives is well formed. -/
theorem wellFormed_of_parse (h : parseAccounts lower text = .ok accounts) :
    ∀ a ∈ accounts, WellFormed a := by
  rw [parseAccounts_eq] at h
  intro a mem
  obtain ⟨s, there, made⟩ := exists_of_mapM_ok h mem
  exact wellFormed_of_describes there (closeGroup_ok.mp made)

/-- The accounts that some file gives are those whose texts a line can carry, and the file that is
written for them gives them back. -/
theorem files_iff (ascii : LowersAscii lower) (accounts : List Account) :
    ((∃ text, parseAccounts lower text = .ok accounts) ↔ ∀ a ∈ accounts, WellFormed a) ∧
      ((∃ text, parseAccounts lower text = .ok accounts) ↔
        parseAccounts lower (render accounts) = .ok accounts) := by
  have written (wf : ∀ a ∈ accounts, WellFormed a) :
      parseAccounts lower (render accounts) = .ok accounts := by
    rw [parseAccounts_eq, sections_render ascii wf, mapM_eq_ok, List.forall₂_map_left_iff,
      List.forall₂_same]
    exact fun a mem => closeGroup_ok.mpr (describes_entriesOf (wf a mem))
  exact ⟨⟨fun ⟨_, h⟩ => wellFormed_of_parse h, fun wf => ⟨_, written wf⟩⟩,
    ⟨fun ⟨_, h⟩ => written (wellFormed_of_parse h), fun h => ⟨_, h⟩⟩⟩

/-- Two accounts, with brackets and separators in their texts. -/
def Sample.two : List Account :=
  [{ name := ['a', ']'], cfg := Config.new ['b', '=', ';'] ['#'], host := ['h'], port := 4569 },
    { name := [], cfg := Config.new ['u'] [], host := ['[', ']'], port := 0 }]

theorem files_sample :
    parseAccounts (·.map Char.toLower) (render Sample.two) = .ok Sample.two := by
  have ascii : LowersAscii (·.map Char.toLower) := fun _ _ => rfl
  refine (files_iff ascii Sample.two).2.mp ((files_iff ascii Sample.two).1.mpr ?_)
  intro a mem
  simp only [Sample.two, List.mem_cons, List.not_mem_nil, or_false] at mem
  obtain rfl | rfl := mem
  all_goals
    refine ⟨by decide, by decide, ?_, ?_, rfl⟩ <;>
      (simp only [Config.new, String.toList_ofList]; decide)

/-! ## The command line -/

/-- A program that starts has an account, and all of them ask for the one format it plays. -/
theorem fromArgs_ok {file : List Char → Option (Except (List Char) (List Char))}
    {args : List (List Char)} (h : fromArgs lower file args = .ok accounts) :
    accounts ≠ [] ∧ ∀ a ∈ accounts, a.cfg.audioFormat = Format.ulaw := by
  unfold fromArgs at h
  split at h
  · cases h
  · cases h
  next path rest =>
    split at h
    next text _ =>
      split at h
      next => cases h
      next found ne parsed =>
        cases h
        refine ⟨ne, fun a mem => ?_⟩
        cases text with
        | error e => cases parsed
        | ok text => exact (wellFormed_of_parse parsed a mem).format
      next => cases h
    next =>
      split at h
      next =>
        cases h
        exact ⟨List.cons_ne_nil _ _, List.forall_mem_singleton.mpr rfl⟩
      next => cases h

end Iax2.Accounts
