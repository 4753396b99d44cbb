import PikiwiNet.Basic
import Mathlib.Data.String.Basic
import Mathlib.Data.Nat.Digits

/-!
# The command line of `pikiwidb-server`

`main` passes its arguments after the program name to `PikiwiDB::ParseArgs`, which walks them
once, left to right:

* while no configuration file has been named, an argument that names a readable file
  (`access(av[i], R_OK) == 0`) becomes it;
* any other argument is compared with the options by `strncasecmp(av[i], opt, n) == 0`, `n` the
  length of the option: ASCII case is ignored, and only the first `n` characters count.
  `-v` / `--version` and `-h` / `--help` print and `exit(0)`; `--port` and `--loglevel` take the
  next argument and `--slaveof` the next two, and `ParseArgs` fails when they are missing;
  anything else is an unknown option and fails.

The port numbers go through glibc's `atoi` (`strtol`, saturating at the bounds of a 64-bit
`long`, narrowed to `int`) and `static_cast<unsigned short>`.  Which files are readable is the
parameter `readable`.  An argument is a C string: it holds no NUL, and as the options are ASCII,
comparing characters or comparing bytes gives the same answers.

* `Args.parseArgs_render` : **the command line round trip**: writing any settings as
  `[cfg] [--port P] [--loglevel L] [--slaveof M P]` and parsing them gives them back, as long as
  no file is named like an option when no configuration file comes first;
* `Args.parseFrom_option` : an argument is recognised by the option it begins with, in any case,
  whatever follows: `--PORT=80` is `--port` and takes the next argument as the port; an argument
  that begins with no option is an unknown option.
-/

namespace PikiwiNet

namespace Args

/-! ### The C library -/

/-- C's `isspace` in the "C" locale. -/
def isSpace (c : Char) : Bool := c.toNat = 32 || (9 ≤ c.toNat && c.toNat ≤ 13)

/-- The first `n` characters of two C strings agree up to ASCII case, or both strings end
together before: `strncasecmp(s, t, n) == 0`. -/
def caseEqN : Nat → List Char → List Char → Bool
  | 0, _, _ => true
  | _ + 1, [], [] => true
  | n + 1, c :: s, d :: t => c.toLower == d.toLower && caseEqN n s t
  | _ + 1, _, _ => false

/-- `strncasecmp(s, t, n) == 0`. -/
def strncasecmpEq (s t : String) (n : Nat) : Bool := caseEqN n s.toList t.toList

/-- The decimal digits at the head of `cs`, read onto `acc`. -/
def digitsValue (acc : Nat) : List Char → Nat
  | c :: cs => if c.isDigit then digitsValue (10 * acc + (c.toNat - 48)) cs else acc
  | [] => acc

/-- The optional sign `strtol` reads: whether it is `-`, and what follows it. -/
def signed : List Char → Bool × List Char
  | c :: ds => if c = '-' then (true, ds) else if c = '+' then (false, ds) else (false, c :: ds)
  | [] => (false, [])

/-- glibc's `strtol(s, NULL, 10)`: white space, an optional sign, then the decimal digits; out of
range it returns `LONG_MIN` or `LONG_MAX`. -/
def strtol (s : String) : Int :=
  let (neg, ds) := signed (s.toList.dropWhile isSpace)
  let v : Int := digitsValue 0 ds
  if neg then max (-2 ^ 63) (-v) else min (2 ^ 63 - 1) v

/-- glibc's `atoi(s)`: `(int) strtol(s, NULL, 10)`. -/
def atoi (s : String) : Int := wrap32 (strtol s)

/-- `static_cast<unsigned short>(x)`. -/
def toUShort (x : Int) : UInt16 := UInt16.ofNat (x % 2 ^ 16).toNat

/-! ### `ParseArgs` -/

/-- The fields of `PikiwiDB` that `ParseArgs` sets. -/
structure Opts where
  /-- `cfgFile_`. -/
  cfgFile : String
  /-- `port_`. -/
  port : UInt16
  /-- `logLevel_`. -/
  logLevel : String
  /-- `master_`. -/
  master : String
  /-- `masterPort_`. -/
  masterPort : UInt16
  deriving DecidableEq, Repr

/-- As the constructor `PikiwiDB()` leaves them: `port_(0), masterPort_(0)`, empty strings. -/
def Opts.init : Opts := ⟨"", 0, "", "", 0⟩

/-- How `ParseArgs` ends. -/
inductive Outcome
  /-- It returns `true`, with the fields set. -/
  | ok (o : Opts)
  /-- It prints the version and calls `exit(0)`. -/
  | version
  /-- It prints the usage and calls `exit(0)`. -/
  | help
  /-- An option lacks its argument: it returns `false`. -/
  | missingValue
  /-- It prints `Unknow option <arg>` and returns `false`. -/
  | unknown (arg : String)
  deriving DecidableEq, Repr

/-- The branches of the body of the loop of `ParseArgs`. -/
inductive Branch
  /-- The argument is the configuration file. -/
  | cfg
  /-- `-v` or `--version`. -/
  | version
  /-- `-h` or `--help`. -/
  | help
  /-- `--port`. -/
  | port
  /-- `--loglevel`. -/
  | loglevel
  /-- `--slaveof`. -/
  | slaveof
  /-- None of them. -/
  | unknown
  deriving DecidableEq, Repr

/-- The tests of the loop body on the argument `av[i]`, in their order. -/
def branch (readable : String → Bool) (o : Opts) (a : String) : Branch :=
  if o.cfgFile = "" ∧ readable a = true then .cfg
  else if strncasecmpEq a "-v" 2 || strncasecmpEq a "--version" 9 then .version
  else if strncasecmpEq a "-h" 2 || strncasecmpEq a "--help" 6 then .help
  else if strncasecmpEq a "--port" 6 then .port
  else if strncasecmpEq a "--loglevel" 10 then .loglevel
  else if strncasecmpEq a "--slaveof" 9 then .slaveof
  else .unknown

/-- The loop of `ParseArgs` over the arguments left, with the fields set so far: each branch of
the body, the arguments it takes and where it goes on. -/
def parseFrom (readable : String → Bool) (o : Opts) : List String → Outcome
  | [] => .ok o
  | a :: rest =>
    match branch readable o a, rest with
    | .cfg, rest => parseFrom readable { o with cfgFile := a } rest
    | .version, _ => .version
    | .help, _ => .help
    | .port, v :: rest => parseFrom readable { o with port := toUShort (atoi v) } rest
    | .port, [] => .missingValue
    | .loglevel, v :: rest => parseFrom readable { o with logLevel := v } rest
    | .loglevel, [] => .missingValue
    | .slaveof, m :: p :: rest =>
      parseFrom readable { o with master := m, masterPort := toUShort (atoi p) } rest
    | .slaveof, _ => .missingValue
    | .unknown, _ => .unknown a

/-- `PikiwiDB::ParseArgs(ac, av)` on a fresh `PikiwiDB`. -/
def parseArgs (readable : String → Bool) (av : List String) : Outcome :=
  parseFrom readable Opts.init av

/-! ### `atoi` reads back a decimal `int` -/

theorem digitChar_spec : ∀ k, k < 10 → (Nat.digitChar k).isDigit = true ∧ (Nat.digitChar k).toNat - 48 = k
  | 0, _ | 1, _ | 2, _ | 3, _ | 4, _ | 5, _ | 6, _ | 7, _ | 8, _ | 9, _ => by decide
  | _ + 10, h => absurd h (by omega)

theorem toDigitsCore_append (f n : Nat) (ds : List Char) :
    Nat.toDigitsCore 10 f n ds = Nat.toDigitsCore 10 f n [] ++ ds := by
  induction f generalizing n ds with
  | zero => rfl
  | succ f ih =>
    simp only [Nat.toDigitsCore]
    split
    · rfl
    · rw [ih _ (_ :: ds), ih _ [_], List.append_assoc, List.singleton_append]

theorem digitsValue_append (acc : Nat) {l₁ : List Char} (l₂ : List Char)
    (h : ∀ c ∈ l₁, c.isDigit = true) : digitsValue acc (l₁ ++ l₂) = digitsValue (digitsValue acc l₁) l₂ := by
  induction l₁ generalizing acc with
  | nil => rfl
  | cons c l ih =>
    simp only [List.cons_append, digitsValue, h c (List.mem_cons_self _ _), if_true]
    exact ih _ fun d hd => h d (List.mem_cons_of_mem _ hd)

/-- With enough fuel, `Nat.toDigitsCore` writes decimal digits that read back to the number. -/
theorem toDigitsCore_spec (n : Nat) : ∀ f, n < f →
    (∀ c ∈ Nat.toDigitsCore 10 f n [], c.isDigit = true) ∧
      digitsValue 0 (Nat.toDigitsCore 10 f n []) = n := by
  induction n using Nat.strong_induction_on with
  | _ n ih =>
    intro f hf
    obtain ⟨f, rfl⟩ : ∃ f', f = f' + 1 := ⟨f - 1, by omega⟩
    have hd := digitChar_spec (n % 10) (Nat.mod_lt _ (by decide))
    simp only [Nat.toDigitsCore]
    split
    · refine ⟨fun c hc => List.mem_singleton.1 hc ▸ hd.1, ?_⟩
      simp only [digitsValue, hd.1, hd.2, if_true]
      omega
    · obtain ⟨hall, hval⟩ := ih (n / 10) (by omega) f (by omega)
      rw [toDigitsCore_append]
      refine ⟨fun c hc => (List.mem_append.1 hc).elim (hall c) fun h => List.mem_singleton.1 h ▸ hd.1, ?_⟩
      rw [digitsValue_append _ _ hall, hval]
      simp only [digitsValue, hd.1, hd.2, if_true]
      omega

theorem toDigitsCore_ne_nil (f n : Nat) : Nat.toDigitsCore 10 (f + 1) n [] ≠ [] := by
  simp only [Nat.toDigitsCore]
  split
  · simp
  · rw [toDigitsCore_append]; simp

theorem isDigit_toNat {c : Char} (h : c.isDigit = true) : 48 ≤ c.toNat ∧ c.toNat ≤ 57 := by
  simp only [Char.isDigit, Bool.and_eq_true, decide_eq_true_eq] at h
  exact ⟨UInt32.le_toNat_of_le (by decide) h.1, UInt32.toNat_le_of_le (by decide) h.2⟩

/-- `atoi` reads back every non-negative `int` written by `toString`. -/
theorem atoi_toString {n : Nat} (h : n ≤ 2 ^ 31 - 1) : atoi (toString n) = n := by
  obtain ⟨hall, hval⟩ := toDigitsCore_spec n (n + 1) (by omega)
  have hs : (toString n).toList = Nat.toDigitsCore 10 (n + 1) n [] := List.toList_asString _
  obtain ⟨c, cs, hcs⟩ := List.exists_cons_of_ne_nil (toDigitsCore_ne_nil n n)
  rw [hcs] at hall hval hs
  have hc := isDigit_toNat (hall c (List.mem_cons_self _ _))
  have hsp : isSpace c = false := by
    simp only [isSpace, Bool.or_eq_false_iff, decide_eq_false_iff_not, Bool.and_eq_false_iff]
    exact ⟨by omega, .inr (by omega)⟩
  have hsign : c ≠ '-' ∧ c ≠ '+' :=
    ⟨fun e => absurd (congrArg Char.toNat e) (by simp; omega),
      fun e => absurd (congrArg Char.toNat e) (by simp; omega)⟩
  simp only [atoi, strtol, hs, List.dropWhile_cons, hsp, signed, hsign.1, hsign.2, if_false,
    Bool.false_eq_true, hval]
  rw [min_eq_right (by omega), wrap32_of_isInt ⟨by omega, by unfold intMax; omega⟩]

/-- `static_cast<unsigned short>` keeps every `unsigned short`. -/
theorem toUShort_toNat (p : UInt16) : toUShort p.toNat = p := by
  have hp := p.toNat_lt_size
  apply UInt16.toNat.inj
  rw [toUShort, Int.emod_eq_of_lt (by omega) (by simp only [UInt16.size] at hp; omega), Int.toNat_ofNat,
    UInt16.toNat_ofNat_of_lt hp]

/-! ### The loop over the arguments -/

section Loop

variable {r : String → Bool}

/-- The loop carries its fields from one argument to the next: an argument list that parses is
continued by any other. -/
theorem parseFrom_append {o o' : Opts} {xs : List String} (ys : List String)
    (h : parseFrom r o xs = .ok o') : parseFrom r o (xs ++ ys) = parseFrom r o' ys := by
  induction o, xs using parseFrom.induct r with
  | case1 o => cases h; rfl
  | case2 o a rest hb ih | case5 o a _ rest hb ih | case7 o a _ rest hb ih
  | case9 o a _ _ rest hb ih =>
    simp only [parseFrom, hb, List.cons_append] at h ⊢
    exact ih h
  | case3 o a rest hb | case4 o a rest hb | case6 o a hb | case8 o a hb | case11 o a rest hb =>
    simp [parseFrom, hb] at h
  | case10 o a rest hb hne =>
    rcases rest with _ | ⟨m, _ | ⟨p, rest⟩⟩
    · simp [parseFrom, hb] at h
    · simp [parseFrom, hb] at h
    · exact (hne m p rest rfl).elim

theorem parseFrom_append_ok {o o₁ o₂ : Opts} {xs ys : List String} (h₁ : parseFrom r o xs = .ok o₁)
    (h₂ : parseFrom r o₁ ys = .ok o₂) : parseFrom r o (xs ++ ys) = .ok o₂ :=
  (parseFrom_append ys h₁).trans h₂

theorem parseFrom_cfg {o : Opts} {c : String} (hc : o.cfgFile = "") (hr : r c = true) :
    parseFrom r o [c] = .ok { o with cfgFile := c } := by
  have hb : branch r o c = .cfg := by rw [branch, if_pos ⟨hc, hr⟩]
  simp only [parseFrom, hb]

theorem parseFrom_port {o : Opts} (hk : ¬ (o.cfgFile = "" ∧ r "--port" = true)) (v : String) :
    parseFrom r o ["--port", v] = .ok { o with port := toUShort (atoi v) } := by
  have hb : branch r o "--port" = .port := by rw [branch, if_neg hk]; rfl
  simp only [parseFrom, hb]

theorem parseFrom_loglevel {o : Opts} (hk : ¬ (o.cfgFile = "" ∧ r "--loglevel" = true)) (v : String) :
    parseFrom r o ["--loglevel", v] = .ok { o with logLevel := v } := by
  have hb : branch r o "--loglevel" = .loglevel := by rw [branch, if_neg hk]; rfl
  simp only [parseFrom, hb]

theorem parseFrom_slaveof {o : Opts} (hk : ¬ (o.cfgFile = "" ∧ r "--slaveof" = true)) (m p : String) :
    parseFrom r o ["--slaveof", m, p] = .ok { o with master := m, masterPort := toUShort (atoi p) } := by
  have hb : branch r o "--slaveof" = .slaveof := by rw [branch, if_neg hk]; rfl
  simp only [parseFrom, hb]

end Loop

/-! ### The round trip -/

/-- The command line that sets `o`: the configuration file first, then each option whose field
differs from what the constructor leaves. -/
def render (o : Opts) : List String :=
  (if o.cfgFile = "" then [] else [o.cfgFile]) ++
    (if o.port = 0 then [] else ["--port", toString o.port.toNat]) ++
    (if o.logLevel = "" then [] else ["--loglevel", o.logLevel]) ++
    (if o.master = "" then [] else ["--slaveof", o.master, toString o.masterPort.toNat])

/-- `atoi` and `static_cast<unsigned short>` read back a port written in decimal. -/
theorem toUShort_atoi_toString (p : UInt16) : toUShort (atoi (toString p.toNat)) = p := by
  have hp := p.toNat_lt_size
  simp only [UInt16.size] at hp
  rw [atoi_toString (by omega), toUShort_toNat]

/-- **The command line round trip.**  For all settings, and whatever files are readable: parsing
the command line `render o` gives `o` back, provided the configuration file, if any, is readable;
that when there is none, no file is named `--port`, `--loglevel` or `--slaveof`; and that a master
port comes with a master. -/
theorem parseArgs_render {r : String → Bool} {o : Opts} (hcfg : o.cfgFile = "" ∨ r o.cfgFile = true)
    (hopt : o.cfgFile = "" → r "--port" = false ∧ r "--loglevel" = false ∧ r "--slaveof" = false)
    (hm : o.master = "" → o.masterPort = 0) : parseArgs r (render o) = .ok o := by
  have hk : ∀ k, (o.cfgFile = "" → r k = false) → ¬ (o.cfgFile = "" ∧ r k = true) :=
    fun k h ⟨hc, hr⟩ => by simp [h hc] at hr
  have h₁ : parseFrom r Opts.init (if o.cfgFile = "" then [] else [o.cfgFile]) =
      .ok ⟨o.cfgFile, 0, "", "", 0⟩ := by
    split
    · rename_i hc; rw [hc]; rfl
    · exact parseFrom_cfg rfl (hcfg.resolve_left ‹_›)
  have h₂ : parseFrom r ⟨o.cfgFile, 0, "", "", 0⟩
      (if o.port = 0 then [] else ["--port", toString o.port.toNat]) =
      .ok ⟨o.cfgFile, o.port, "", "", 0⟩ := by
    split
    · rename_i hp; rw [hp]; rfl
    · rw [parseFrom_port (o := ⟨o.cfgFile, 0, "", "", 0⟩) (hk _ fun h => (hopt h).1),
        toUShort_atoi_toString]
  have h₃ : parseFrom r ⟨o.cfgFile, o.port, "", "", 0⟩
      (if o.logLevel = "" then [] else ["--loglevel", o.logLevel]) =
      .ok ⟨o.cfgFile, o.port, o.logLevel, "", 0⟩ := by
    split
    · rename_i hl; rw [hl]; rfl
    · exact parseFrom_loglevel (o := ⟨o.cfgFile, o.port, "", "", 0⟩) (hk _ fun h => (hopt h).2.1) _
  have h₄ : parseFrom r ⟨o.cfgFile, o.port, o.logLevel, "", 0⟩
      (if o.master = "" then [] else ["--slaveof", o.master, toString o.masterPort.toNat]) = .ok o := by
    split
    · rename_i hl
      rw [← hm hl, ← hl]; rfl
    · rw [parseFrom_slaveof (o := ⟨o.cfgFile, o.port, o.logLevel, "", 0⟩) (hk _ fun h => (hopt h).2.2),
        toUShort_atoi_toString]
  exact parseFrom_append_ok (parseFrom_append_ok (parseFrom_append_ok h₁ h₂) h₃) h₄

/-- A configuration file and all three options. -/
theorem parseArgs_render_all :
    parseArgs (fun s => s == "pikiwidb.conf") (render ⟨"pikiwidb.conf", 6380, "verbose", "127.0.0.1", 6379⟩) =
      .ok ⟨"pikiwidb.conf", 6380, "verbose", "127.0.0.1", 6379⟩ :=
  parseArgs_render (.inr (by decide)) (fun h => by simp at h) (fun h => by simp at h)

/-! ### How an argument is recognised -/

/-- The options of `ParseArgs` in the order it tries them, with the branch each selects. -/
def options : List (String × Branch) :=
  [("-v", .version), ("--version", .version), ("-h", .help), ("--help", .help), ("--port", .port),
    ("--loglevel", .loglevel), ("--slaveof", .slaveof)]

/-- Over the length of a lower-case option, `strncasecmp` says that the argument begins with the
option, in any case. -/
theorem caseEqN_iff {k : List Char} (hk : ∀ d ∈ k, d.toLower = d) (a : List Char) :
    caseEqN k.length a k = true ↔ k <+: a.map Char.toLower := by
  induction k generalizing a with
  | nil => simp [caseEqN]
  | cons d k ih =>
    cases a with
    | nil => simp [caseEqN]
    | cons c a =>
      simp only [List.length_cons, caseEqN, List.map_cons, List.cons_prefix_cons, Bool.and_eq_true,
        beq_iff_eq, hk d (List.mem_cons_self _ _)]
      exact and_congr eq_comm (ih (fun x hx => hk x (List.mem_cons_of_mem _ hx)) a)

theorem strncasecmpEq_eq_decide (a k : String) (n : Nat) (hn : n = k.toList.length)
    (hk : ∀ d ∈ k.toList, d.toLower = d) :
    strncasecmpEq a k n = decide (k.toList <+: a.toList.map Char.toLower) := by
  subst hn
  exact Bool.eq_iff_iff.2 ((caseEqN_iff hk _).trans decide_eq_true_iff.symm)

theorem not_prefix_of_incomparable {k k' l : List Char} (h : k <+: l) (hkk : ¬ k' <+: k ∧ ¬ k <+: k') :
    ¬ k' <+: l :=
  fun h' => (List.prefix_or_prefix_of_prefix h' h).elim hkk.1 hkk.2

/-- An argument that is not taken as the configuration file selects the branch of the option it
begins with, in any case; no option begins another, so there is at most one.  If it begins with
none, it is unknown. -/
theorem branch_option {r : String → Bool} {o : Opts} {a : String} (ha : ¬ (o.cfgFile = "" ∧ r a = true)) :
    (∀ kb ∈ options, kb.1.toList <+: a.toList.map Char.toLower → branch r o a = kb.2) ∧
    ((∀ kb ∈ options, ¬ kb.1.toList <+: a.toList.map Char.toLower) → branch r o a = .unknown) := by
  refine ⟨fun kb hkb hpre => ?_, fun h => ?_⟩
  · have hr : ∀ k', (¬ k' <+: kb.1.toList ∧ ¬ kb.1.toList <+: k') →
        decide (k' <+: a.toList.map Char.toLower) = false :=
      fun k' hkk => decide_eq_false (not_prefix_of_incomparable hpre hkk)
    simp only [options, List.mem_cons, List.mem_singleton, List.not_mem_nil, or_false] at hkb
    rcases hkb with rfl | rfl | rfl | rfl | rfl | rfl | rfl <;>
      simp (disch := decide) only [branch, if_neg ha, strncasecmpEq_eq_decide, decide_eq_true hpre, hr,
        Bool.or_false, Bool.false_or, Bool.or_true, if_true, if_false, Bool.false_eq_true]
  · have hr : ∀ kb ∈ options, decide (kb.1.toList <+: a.toList.map Char.toLower) = false :=
      fun kb hkb => decide_eq_false (h kb hkb)
    simp only [options, List.mem_cons, List.mem_singleton, List.not_mem_nil, or_false,
      forall_eq_or_imp, forall_eq] at hr
    simp (disch := decide) only [branch, if_neg ha, strncasecmpEq_eq_decide, hr, Bool.or_false,
      if_false, Bool.false_eq_true]

/-- **Options are recognised by how they begin, in any case.**  Take an argument that is not taken
as the configuration file.  If it begins, in upper or lower case, with an option, `ParseArgs` goes
on exactly as with any other argument beginning with that option, whatever follows the option in
it and whatever arguments come after: `--PORT=80` acts as `--port` and takes the next argument as
the port.  If it begins with no option, it is reported as an unknown option. -/
theorem parseFrom_option {r : String → Bool} {o : Opts} {a a' : String} (rest : List String)
    (ha : ¬ (o.cfgFile = "" ∧ r a = true)) (ha' : ¬ (o.cfgFile = "" ∧ r a' = true)) :
    (∀ kb ∈ options, kb.1.toList <+: a.toList.map Char.toLower →
      kb.1.toList <+: a'.toList.map Char.toLower →
        parseFrom r o (a :: rest) = parseFrom r o (a' :: rest)) ∧
    ((∀ kb ∈ options, ¬ kb.1.toList <+: a.toList.map Char.toLower) →
      parseFrom r o (a :: rest) = .unknown a) := by
  refine ⟨fun kb hkb h h' => ?_, fun h => by simp only [parseFrom, (branch_option ha).2 h]⟩
  have hk : kb.2 ≠ .cfg ∧ kb.2 ≠ .unknown := by
    simp only [options, List.mem_cons, List.mem_singleton, List.not_mem_nil, or_false] at hkb
    rcases hkb with rfl | rfl | rfl | rfl | rfl | rfl | rfl <;> decide
  unfold parseFrom
  rw [(branch_option ha).1 kb hkb h, (branch_option ha').1 kb hkb h']
  cases hb : kb.2 with
  | cfg => exact absurd hb hk.1
  | unknown => exact absurd hb hk.2
  | version | help => rfl
  | port | loglevel | slaveof => rcases rest with _ | ⟨_, _ | ⟨_, _⟩⟩ <;> rfl

/-- `--PORT=80 6380` sets the port to 6380, as `--port 6380` does. -/
theorem parseFrom_option_port_equals :
    parseArgs (fun _ => false) ["--PORT=80", "6380"] = parseArgs (fun _ => false) ["--port", "6380"] ∧
      parseArgs (fun _ => false) ["--port", "6380"] = .ok ⟨"", 6380, "", "", 0⟩ :=
  ⟨(parseFrom_option ["6380"] (by simp) (by simp)).1 ("--port", .port) (by decide) (by decide) (by decide),
    by decide⟩

end Args

end PikiwiNet
