/-
# `Rsurl.Cookie.Jar` — a jar is a map from identities to cookies

The identity of a cookie is its name, its domain up to case and its path.  The
abstract jar is a map from identities; every operation has its update of the
map, the last write of an identity winning.  A jar that is changed by
`Set-Cookie`, by explicit cookies and by expiry holds exactly its map.  A
loaded file is pushed record by record, so it does only when no two of its
lines carry records of one identity.
-/
import Rsurl.Base.Keyed
import Rsurl.Cookie

namespace Rsurl.Cookies

open Base.Keyed (Distinct Holds lastWrites)

/-! ## Identities -/

/-- Name, domain and path. -/
abbrev Identity := Text × Text × Text

def identity (c : Cookie) : Identity := (c.name, c.domain.toAsciiLowercase, c.path)

theorem sameIdentity_iff {x c : Cookie} :
    (x.name == c.name && x.domain.eqIgnoreAsciiCase c.domain && x.path == c.path) = true ↔
      identity x = identity c := by
  simp [identity, Text.eqIgnoreAsciiCase, and_assoc]

namespace CookieJar

theorem removeMatching_cookies (jar : CookieJar) (c : Cookie) :
    (jar.removeMatching c).cookies = Base.Keyed.remove identity (identity c) jar.cookies := by
  refine List.filter_congr fun x _ => ?_
  rw [Bool.eq_iff_iff, Bool.not_eq_true', ← Bool.not_eq_true, sameIdentity_iff]
  simp

theorem replace_cookies (jar : CookieJar) (c : Cookie) :
    ((jar.removeMatching c).push c).cookies = Base.Keyed.put identity c jar.cookies := by
  rw [push, removeMatching_cookies, Base.Keyed.put]

end CookieJar

/-! ## The records of a file -/

/-- The cookie of a line that has one. -/
def readCookie (line : Text) : Option Cookie :=
  match parseNetscapeLine line with
  | .cookie c => some c
  | _ => none

/-- The cookie on a line of a file. -/
def cookieOn (line : Bytes) : Option Cookie := (fromUtf8 line).bind readCookie

/-- A line that does not make a load fail: it is text, and not malformed. -/
def Loadable (line : Bytes) : Prop :=
  ∃ t, fromUtf8 line = some t ∧ parseNetscapeLine t ≠ .malformed

/-- No two lines of a file carry cookies of one identity. -/
def RepeatFree (content : Bytes) : Prop :=
  (lines content).Pairwise fun a b => ∀ c ∈ cookieOn a, ∀ d ∈ cookieOn b, identity c ≠ identity d

namespace CookieJar

/-- Loading succeeds unless a line makes it fail, and keeps the cookies in order. -/
theorem loadLines_eq_ok {path : Text} {ls : List Bytes} {jar jar' : CookieJar} {n : Nat} :
    loadLines path jar n ls = .ok jar' ↔
      (∀ l ∈ ls, Loadable l) ∧ jar'.cookies = jar.cookies ++ ls.filterMap cookieOn := by
  induction ls generalizing jar n with
  | nil =>
      obtain ⟨cs⟩ := jar
      obtain ⟨cs'⟩ := jar'
      simp [loadLines, eq_comm]
  | cons l ls ih =>
      rw [loadLines, Result.bind_eq_ok]
      cases htext : fromUtf8 l with
      | none => simp [loadLine, htext, Loadable]
      | some t =>
          cases hline : parseNetscapeLine t with
          | cookie c => simp [loadLine, htext, hline, ih, readCookie, cookieOn, push, Loadable]
          | skip => simp [loadLine, htext, hline, ih, readCookie, cookieOn, Loadable]
          | malformed => simp [loadLine, htext, hline, Loadable]

theorem loadNetscape_eq_ok {path : Text} {content : Bytes} {jar : CookieJar} :
    loadNetscape path (.ok content) = .ok jar ↔
      (∀ l ∈ lines content, Loadable l) ∧ jar.cookies = (lines content).filterMap cookieOn :=
  loadLines_eq_ok

/-- A file without repeats is one whose cookies have an identity each. -/
theorem distinct_loaded_iff {path : Text} {content : Bytes} {jar : CookieJar}
    (h : loadNetscape path (.ok content) = .ok jar) :
    Distinct identity jar.cookies ↔ RepeatFree content := by
  rw [(loadNetscape_eq_ok.mp h).2, Distinct, List.Nodup, List.pairwise_map, List.pairwise_filterMap]
  rfl

end CookieJar

/-! ## Histories -/

/-- What is done to a jar. -/
inductive Op where
  | setCookie (url : Url) (line : Text) (now : Nat)
  | explicit (name value : Text) (url : Url)
  | load (path : Text) (file : Except IoKind Bytes)
  | loadOrEmpty (path : Text) (file : Except IoKind Bytes)
  | purge (now : Nat)

/-- The jar after an operation; a load that fails leaves the caller the jar it had. -/
def Op.run (jar : CookieJar) : Op → CookieJar
  | .setCookie url line now => jar.addSetCookie url line now
  | .explicit name value url => jar.addExplicit name value url
  | .load path file =>
      match CookieJar.loadNetscape path file with
      | .ok loaded => loaded
      | .error _ => jar
  | .loadOrEmpty path file =>
      match CookieJar.loadNetscapeOrEmpty path file with
      | .ok loaded => loaded
      | .error _ => jar
  | .purge now => jar.purgeExpired now

def runOps (ops : List Op) : CookieJar := ops.foldl Op.run .new

@[simp] theorem runOps_concat (ops : List Op) (op : Op) :
    runOps (ops ++ [op]) = op.run (runOps ops) := by
  rw [runOps, List.foldl_append]
  rfl

/-! ## The abstract jar -/

/-- What is stored under each identity. -/
abbrev Store := Identity → Option Cookie

/-- What an operation means: a `Set-Cookie` writes or, past its expiry, erases its identity; an
explicit cookie writes; a loaded file is read as a list of writes; expiry forgets. -/
def Op.update (m : Store) : Op → Store
  | .setCookie url line now =>
      match parseSetCookie line url now with
      | none => m
      | some c => Function.update m (identity c) (if c.expired now then none else some c)
  | .explicit name value url =>
      let c := CookieJar.explicitCookie name value url
      Function.update m (identity c) (some c)
  | .load path file =>
      match CookieJar.loadNetscape path file with
      | .ok loaded => lastWrites identity loaded.cookies
      | .error _ => m
  | .loadOrEmpty path file =>
      match CookieJar.loadNetscapeOrEmpty path file with
      | .ok loaded => lastWrites identity loaded.cookies
      | .error _ => m
  | .purge now => fun k => (m k).filter fun c => !c.expired now

def storeOf (ops : List Op) : Store := ops.foldl Op.update fun _ => none

@[simp] theorem storeOf_concat (ops : List Op) (op : Op) :
    storeOf (ops ++ [op]) = op.update (storeOf ops) := by
  rw [storeOf, List.foldl_append]
  rfl

/-- A load of a file without repeats, or of one that cannot be read or has a line that makes the
load fail; any other operation. -/
def Op.Clean : Op → Prop
  | .load _ (.ok content) | .loadOrEmpty _ (.ok content) =>
      (∀ line ∈ lines content, Loadable line) → RepeatFree content
  | _ => True

theorem Op.Clean.distinct {path : Text} {file : Except IoKind Bytes} {loaded : CookieJar}
    (h : (Op.load path file).Clean) (hload : CookieJar.loadNetscape path file = .ok loaded) :
    Distinct identity loaded.cookies := by
  cases file with
  | error kind => cases hload
  | ok content =>
      exact (CookieJar.distinct_loaded_iff hload).mpr (h (CookieJar.loadNetscape_eq_ok.mp hload).1)

/-- A jar is loaded from the file, or is empty because there is none. -/
theorem CookieJar.loadNetscapeOrEmpty_eq_ok {path : Text} {file : Except IoKind Bytes}
    {loaded : CookieJar} (h : loadNetscapeOrEmpty path file = .ok loaded) :
    loaded = new ∨ loadNetscape path file = .ok loaded := by
  rw [loadNetscapeOrEmpty] at h
  split at h
  · exact .inl (Except.ok.inj h).symm
  · exact .inr h

theorem Op.Clean.distinct_orEmpty {path : Text} {file : Except IoKind Bytes} {loaded : CookieJar}
    (h : (Op.loadOrEmpty path file).Clean)
    (hload : CookieJar.loadNetscapeOrEmpty path file = .ok loaded) :
    Distinct identity loaded.cookies := by
  rcases CookieJar.loadNetscapeOrEmpty_eq_ok hload with rfl | hload
  · exact List.nodup_nil
  · cases file with
    | error kind => cases hload
    | ok content => exact @Op.Clean.distinct path (.ok content) loaded h hload

/-- One operation on a jar that holds its map. -/
theorem holds_run {jar : CookieJar} {m : Store} (h : Holds identity jar.cookies m) (op : Op)
    (hclean : op.Clean) : Holds identity (op.run jar).cookies (op.update m) := by
  cases op with
  | setCookie url line now =>
      cases hparse : parseSetCookie line url now with
      | none => simpa only [Op.run, Op.update, CookieJar.addSetCookie, hparse] using h
      | some c =>
          simp only [Op.run, Op.update, CookieJar.addSetCookie, hparse]
          by_cases hexp : c.expired now = true
          · rw [if_pos hexp, if_pos hexp, CookieJar.removeMatching_cookies]
            exact h.remove _
          · rw [if_neg hexp, if_neg hexp, CookieJar.replace_cookies]
            exact h.put c
  | explicit name value url =>
      show Holds identity (CookieJar.addExplicit jar name value url).cookies _
      rw [CookieJar.addExplicit, CookieJar.replace_cookies]
      exact h.put _
  | load path file =>
      simp only [Op.run, Op.update]
      split
      · next loaded hload => exact Base.Keyed.holds_lastWrites (hclean.distinct hload)
      · exact h
  | loadOrEmpty path file =>
      simp only [Op.run, Op.update]
      split
      · next loaded hload => exact Base.Keyed.holds_lastWrites (hclean.distinct_orEmpty hload)
      · exact h
  | purge now => exact h.filter _

/-- A run of clean operations holds its map. -/
theorem holds_runOps {ops : List Op} (hclean : ∀ op ∈ ops, op.Clean) :
    Holds identity (runOps ops).cookies (storeOf ops) := by
  induction ops using List.reverseRecOn with
  | nil => exact .nil
  | append_singleton ops op ih =>
      rw [runOps_concat, storeOf_concat]
      have hold := ih fun o ho => hclean o (List.mem_append_left _ ho)
      exact holds_run hold op (hclean op (by simp))

/-! ## The law -/

/-- No two cookies of the jar have one identity, the last write of each identity is the one that
is there, and no cookie is left under an identity that the last operation set in the past. -/
structure Unique (ops : List Op) : Prop where
  distinct : (runOps ops).cookies.Pairwise fun x y => identity x ≠ identity y
  latest : ∀ c, c ∈ (runOps ops).cookies ↔ storeOf ops (identity c) = some c
  erased : ∀ url line now c, ops.getLast? = some (.setCookie url line now) →
    parseSetCookie line url now = some c → c.expired now = true →
      ∀ x ∈ (runOps ops).cookies, identity x ≠ identity c

theorem unique_of_holds {ops : List Op} (h : Holds identity (runOps ops).cookies (storeOf ops)) :
    Unique ops where
  distinct := List.pairwise_map.mp h.distinct
  latest c := ⟨h.lookup_of_mem, fun hc => ((h.lookup_iff _ _).mp hc).1⟩
  erased url line now c hlast hparse hexp x hx hid := by
    obtain ⟨before, rfl⟩ := List.getLast?_eq_some_iff.mp hlast
    have hlook := h.lookup_of_mem hx
    rw [storeOf_concat, hid] at hlook
    simp [Op.update, hparse, hexp] at hlook

/-- The state behind an operation of a run in which every state is a map. -/
theorem distinct_behind {before after : List Op} {op : Op}
    (h : ∀ n, Unique ((before ++ op :: after).take n)) :
    Distinct identity (op.run (runOps before)).cookies := by
  have hstate := (h (before.length + 1)).distinct
  rw [List.take_append, List.take_of_length_le (by omega)] at hstate
  rw [show before.length + 1 - before.length = 0 + 1 by omega, List.take_succ_cons,
    List.take_zero, runOps_concat] at hstate
  exact List.pairwise_map.mpr hstate

/-- Every state of a run is a map exactly when no file that is loaded has an identity twice. -/
theorem uniqueRun_iff (ops : List Op) :
    (∀ n, Unique (ops.take n)) ↔ ∀ op ∈ ops, op.Clean := by
  have hloads : ∀ path content, (∀ line ∈ lines content, Loadable line) →
      ∃ loaded, CookieJar.loadNetscape path (.ok content) = .ok loaded ∧
        CookieJar.loadNetscapeOrEmpty path (.ok content) = .ok loaded := by
    intro path content hlines
    have hload := (@CookieJar.loadNetscape_eq_ok path content
      ⟨(lines content).filterMap cookieOn⟩).mpr ⟨hlines, rfl⟩
    exact ⟨_, hload, by rw [CookieJar.loadNetscapeOrEmpty, hload]⟩
  constructor
  · intro h op hop
    obtain ⟨before, after, rfl⟩ := List.append_of_mem hop
    have hstate := distinct_behind h
    cases op with
    | load path file =>
        cases file with
        | error kind => trivial
        | ok content =>
            intro hlines
            obtain ⟨loaded, hload, -⟩ := hloads path content hlines
            simp only [Op.run, hload] at hstate
            exact (CookieJar.distinct_loaded_iff hload).mp hstate
    | loadOrEmpty path file =>
        cases file with
        | error kind => trivial
        | ok content =>
            intro hlines
            obtain ⟨loaded, hload, hempty⟩ := hloads path content hlines
            simp only [Op.run, hempty] at hstate
            exact (CookieJar.distinct_loaded_iff hload).mp hstate
    | setCookie | explicit | purge => trivial
  · intro h n
    exact unique_of_holds (holds_runOps fun op hop => h op (List.mem_of_mem_take hop))

/-- Two records of one identity. -/
def sampleTwice : Bytes :=
  Text.utf8 ("a.com\tFALSE\t/\tFALSE\t0\tx\t1\n".toList ++ "a.com\tFALSE\t/\tFALSE\t0\tx\t2\n".toList)

/-- The jar then has the cookie twice. -/
theorem loaded_twice : ¬ Unique [.load [] (.ok sampleTwice)] := by
  intro h
  have hrun : (runOps [.load [] (.ok sampleTwice)]).cookies.map identity =
      [("x".toList, "a.com".toList, ['/']), ("x".toList, "a.com".toList, ['/'])] := by
    decide +kernel
  have hpair := h.distinct
  rw [← List.pairwise_map, hrun] at hpair
  simp at hpair

end Rsurl.Cookies
