/-
# Who is signed in

The store never holds the cookies that are good; it holds records that expire, are deleted
in passing, or were stored under another secret or an older generation.  `Grants` is what
they are for: to each cookie the time at which it ends, the secret it was granted for and its
CSRF text.  A correct sign-in grants, whatever wrong attempts came before it; signing out
takes the grant of the cookie back, and signing everybody out those of all.

Over every run with a clock that does not go back, a request is let through exactly when its
cookie is granted (`admits`).  It rests on `epochText_inj`: two epochs are the same only when
secret and generation are, although one is just appended to the other.

The other half of the module is about wrong attempts.  Whatever the clock does, what the
process remembers of them is bounded (`remembersFew`); with a clock that does not go back, no
source has more than ten attempts answered as wrong in any sixty seconds (`throttles`).
-/

import MorpheusGateway.Console
import Mathlib.Algebra.Order.Ring.Rat

namespace MorpheusGateway
namespace Console

/-! ### The grants -/

/-- What a correct sign-in gives. -/
structure Grant where
  expires : ℚ
  secret : String
  csrf : String

/-- The cookies that are granted. -/
abbrev Grants := String → Option Grant

/-- The cookie is granted for the secret of the configuration and has not ended, and a request
that changes something comes from the console with the CSRF text. -/
def admitted (g : Grants) (c : Console) (safe : Bool) (r : Credentials) : Bool :=
  (g (r.cookie.getD "")).any fun x =>
    c.now ≤ x.expires && x.secret = c.adminToken &&
      (safe || r.origin = some c.publicOrigin && r.csrf.getD "" = x.csrf)

/-- The grants after an action in the state `c`. -/
def regrant (c : Console) (g : Grants) : Action → Grants
  | .login token origin _ cookie csrf .work =>
      if origin = some c.publicOrigin ∧ token = c.adminToken then
        Function.update g cookie (some ⟨c.now + 12 * 3600, c.adminToken, csrf⟩)
      else g
  | .logout r true =>
      if r.origin = some c.publicOrigin then Function.update g (r.cookie.getD "") none else g
  | .logoutAll r _ true => if admitted g c false r then fun _ => none else g
  | _ => g

/-- The grants of a run; the newest action comes first. -/
def grants (c : Console) : List Action → Grants
  | [] => fun _ => none
  | a :: l => regrant (c.after l) (grants c l) a

/-- The generation that an action draws. -/
def Action.value : Action → Option String
  | .logoutAll _ value _ => some value
  | _ => none

/-- The random texts of a run: a cookie is not empty, a CSRF text is ASCII, and the generations
are 32 digits that never repeat. -/
structure Drawn (l : List Action) : Prop where
  cookies : ∀ token origin host cookie csrf writes,
    .login token origin host cookie csrf writes ∈ l → cookie ≠ "" ∧ isAscii csrf = true
  values : (l.filterMap Action.value).Nodup
  digits : ∀ v ∈ l.filterMap Action.value, v.toList.length = 32

/-- The clock does not go back. -/
def Forward (c : Console) : List Action → Prop
  | [] => True
  | .clock now :: l => (c.after l).now ≤ now ∧ Forward c l
  | _ :: l => Forward c l

/-- A new installation. -/
def installed (adminToken publicOrigin : String) (now : ℚ) : Console := { adminToken, publicOrigin, now }

/-! ### Epochs -/

/-- A generation as the store has it: none, or 32 digits. -/
def IsGeneration (g : Option String) : Prop := ∀ v, g = some v → v.toList.length = 32

/-- The characters of a generation that is written. -/
theorem toList_generationText (v : String) : (generationText (some v)).toList =
    "\x7b'value': '".toList ++ (v.toList ++ ['\'', '}']) := by
  rw [generationText, String.toList_append, String.toList_append, List.append_assoc]
  rfl

/-- The epochs of no generation and of one end differently. -/
theorem epochText_ne (a b v : String) : epochText a none ≠ epochText b (some v) := by
  intro e
  have hn : (epochText a none).toList.getLast? = some 'e' := by
    rw [epochText, String.toList_append]
    exact (congrArg List.getLast? (List.append_assoc a.toList ['N', 'o', 'n'] ['e'])).symm.trans
      (List.getLast?_concat ..)
  have hs : (epochText b (some v)).toList.getLast? = some '}' := by
    rw [epochText, String.toList_append, toList_generationText]
    have split : b.toList ++ ("\x7b'value': '".toList ++ (v.toList ++ ['\'', '}'])) =
        (b.toList ++ "\x7b'value': '".toList ++ v.toList ++ ['\'']) ++ ['}'] := by
      simp only [List.append_assoc, List.cons_append, List.nil_append]
    rw [split, List.getLast?_concat]
  rw [e, hs] at hn
  exact absurd (Option.some.inj hn) (by decide)

/-- **The epoch determines the secret and the generation.** -/
theorem epochText_inj {a b : String} {g h : Option String} (hg : IsGeneration g)
    (hh : IsGeneration h) (e : epochText a g = epochText b h) : a = b ∧ g = h := by
  cases g with
  | none =>
    cases h with
    | none =>
      have e := congrArg String.toList e
      rw [epochText, epochText, String.toList_append, String.toList_append] at e
      exact ⟨String.toList_injective (List.append_cancel_right e), rfl⟩
    | some w => exact absurd e (epochText_ne a b w)
  | some v =>
    cases h with
    | none => exact absurd e.symm (epochText_ne b a v)
    | some w =>
      have e := congrArg String.toList e
      rw [epochText, epochText, String.toList_append, String.toList_append,
        toList_generationText, toList_generationText] at e
      obtain ⟨ha, ht⟩ := List.append_inj' e (by
        simp only [List.length_append, hg v rfl, hh w rfl])
      have hv := List.append_cancel_right (List.append_cancel_left ht)
      exact ⟨String.toList_injective ha, congrArg some (String.toList_injective hv)⟩

/-! ### What an action does to the store -/

/-- The states agree but for the wrong attempts that are remembered. -/
structure SameStore (c' c : Console) : Prop where
  adminToken : c'.adminToken = c.adminToken
  publicOrigin : c'.publicOrigin = c.publicOrigin
  now : c'.now = c.now
  generation : c'.generation = c.generation
  admin : c'.admin = c.admin

/-- A console stores what it stores. -/
theorem SameStore.refl (c : Console) : c.SameStore c := ⟨rfl, rfl, rfl, rfl, rfl⟩

/-- The check of the origin passes for the public origin only. -/
theorem checkOrigin_ok {c : Console} {origin : Option String} :
    c.checkOrigin origin = .ok () ↔ origin = some c.publicOrigin := by
  unfold checkOrigin
  split_ifs with h
  · exact ⟨fun _ => h, fun _ => rfl⟩
  · exact ⟨fun e => (by cases e), fun e => absurd e h⟩

/-- **A sign-in with the secret is accepted** from the console's origin, whatever is remembered
of wrong attempts; any other changes nothing in the store. -/
theorem login_cases (c : Console) (token : String) (origin host : Option String)
    (cookie csrf : String) (writes : Writes) :
    (¬(origin = some c.publicOrigin ∧ token = c.adminToken) ∧
        (c.login token origin host cookie csrf writes).1.SameStore c) ∨
      (origin = some c.publicOrigin ∧ token = c.adminToken) ∧ ∃ c' : Console, c'.SameStore c ∧
        ((writes = .work ∧ (c.login token origin host cookie csrf writes).1 =
            (c'.dropExpired fun _ => true).grant cookie csrf) ∨
          ∃ deleted, writes = .fail deleted ∧
            (c.login token origin host cookie csrf writes).1 = c'.dropExpired deleted) := by
  have same : ∀ source times, ((c.forget.remember source times).SameStore c) :=
    fun _ _ => ⟨rfl, rfl, rfl, rfl, rfl⟩
  unfold login
  cases ho : c.checkOrigin origin with
  | error d =>
    refine .inl ⟨fun h => ?_, .refl c⟩
    rw [checkOrigin_ok.2 h.1] at ho
    cases ho
  | ok u =>
    have ho : origin = some c.publicOrigin := checkOrigin_ok.1 ho
    by_cases ht : token = c.adminToken
    · refine .inr ⟨⟨ho, ht⟩, (c.forget.remember (host.getD "unknown")
        (Window.trim (c.now - 60) (c.forget.bucket (host.getD "unknown")))).dropSource
          (host.getD "unknown"), ⟨rfl, rfl, rfl, rfl, rfl⟩, ?_⟩
      have ht' : ¬token ≠ (c.forget.remember (host.getD "unknown")
        (Window.trim (c.now - 60) (c.forget.bucket (host.getD "unknown")))).adminToken := fun h => h ht
      cases writes with
      | work => exact .inl ⟨rfl, by simp only [if_neg ht']⟩
      | fail deleted => exact .inr ⟨deleted, rfl, by simp only [if_neg ht']⟩
    · refine .inl ⟨fun h => ht h.2, ?_⟩
      have ht' : token ≠ (c.forget.remember (host.getD "unknown")
        (Window.trim (c.now - 60) (c.forget.bucket (host.getD "unknown")))).adminToken := ht
      simp only [if_pos ht']
      split_ifs
      · exact same _ _
      · exact ⟨rfl, rfl, rfl, rfl, rfl⟩

/-- A sign-in is left unless it has expired and is among those tested. -/
theorem get_dropExpired (c : Console) (test : SignIn → Bool) (k : String) :
    (c.dropExpired test).admin.get k =
      (c.admin.get k).filter fun auth => !(auth.expires < c.now && test auth) :=
  Table.get_filter ..

/-! ### The invariant -/

/-- The generations that were ever current. -/
def known (l : List Action) : List (Option String) := none :: (l.filterMap Action.value).map some

/-- Generations that were known stay known. -/
theorem known_subset (a : Action) (l : List Action) : known l ⊆ known (a :: l) := by
  intro g hg
  rcases List.mem_cons.1 hg with rfl | hg
  · exact List.mem_cons_self
  · refine List.mem_cons_of_mem _ (List.map_subset _ ?_ hg)
    rw [List.filterMap_cons]
    split
    · exact List.Subset.refl _
    · exact List.subset_cons_self ..

/-- What the store has of a granted cookie is its grant, unless that has ended; what it has of
another is of an older generation. -/
structure Tracks (l : List Action) (c : Console) (g : Grants) : Prop where
  blank : g "" = none
  granted : ∀ k x, g k = some x → isAscii x.csrf = true ∧
    (c.admin.get k = some ⟨k, x.csrf, x.expires, epochText x.secret c.generation⟩ ∨
      c.admin.get k = none ∧ x.expires < c.now)
  stale : ∀ k r, g k = none → c.admin.get k = some r →
    ∃ secret gen, r.epoch = epochText secret gen ∧ gen ≠ c.generation ∧ gen ∈ known l
  current : c.generation ∈ known l

/-- Time passes, and the configuration may change. -/
theorem Tracks.later {l l' : List Action} {c c' : Console} {g : Grants} (h : Tracks l c g)
    (hl : known l ⊆ known l') (hn : c.now ≤ c'.now) (hg : c'.generation = c.generation)
    (ha : c'.admin = c.admin) : Tracks l' c' g where
  blank := h.blank
  granted k x hx := by
    rw [ha, hg]
    exact ⟨(h.granted k x hx).1, (h.granted k x hx).2.imp id fun ⟨hd, he⟩ => ⟨hd, he.trans_le hn⟩⟩
  stale k r hk hr := by
    rw [ha] at hr
    rw [hg]
    obtain ⟨secret, gen, he, hne, hm⟩ := h.stale k r hk hr
    exact ⟨secret, gen, he, hne, hl hm⟩
  current := by
    rw [hg]
    exact hl h.current

/-- Expired records are deleted in passing. -/
theorem Tracks.dropExpired {l : List Action} {c : Console} {g : Grants} (h : Tracks l c g)
    (test : SignIn → Bool) : Tracks l (c.dropExpired test) g where
  blank := h.blank
  granted k x hx := by
    obtain ⟨ascii, hs | ⟨hd, he⟩⟩ := h.granted k x hx
    · refine ⟨ascii, ?_⟩
      rw [get_dropExpired, hs]
      by_cases he : x.expires < c.now
      · cases ht : test ⟨k, x.csrf, x.expires, epochText x.secret c.generation⟩ with
        | true => exact .inr ⟨by simp [Option.filter, he, ht], he⟩
        | false => exact .inl (by simp [Option.filter, ht]; rfl)
      · exact .inl (by simp [Option.filter, he]; rfl)
    · exact ⟨ascii, .inr ⟨by rw [get_dropExpired, hd]; rfl, he⟩⟩
  stale k r hk hr := by
    rw [get_dropExpired] at hr
    exact h.stale k r hk (Option.filter_eq_some_iff.1 hr).1
  current := h.current

/-- A cookie is granted. -/
theorem Tracks.grant {l : List Action} {c : Console} {g : Grants} (h : Tracks l c g)
    {cookie csrf : String} (hc : cookie ≠ "") (ha : isAscii csrf = true) :
    Tracks l (c.grant cookie csrf)
      (Function.update g cookie (some ⟨c.now + 12 * 3600, c.adminToken, csrf⟩)) := by
  have get : ∀ k, (c.grant cookie csrf).admin.get k =
      if k = cookie then some ⟨cookie, csrf, c.now + 12 * 3600, c.authEpoch⟩ else c.admin.get k :=
    fun k => Table.get_put ..
  refine ⟨?_, fun k x hx => ?_, fun k r hk hr => ?_, h.current⟩
  · rw [Function.update_of_ne hc.symm]
    exact h.blank
  · rw [get]
    rcases eq_or_ne k cookie with rfl | hk
    · rw [Function.update_self] at hx
      obtain rfl := Option.some.inj hx
      exact ⟨ha, .inl (if_pos rfl)⟩
    · rw [Function.update_of_ne hk] at hx
      rw [if_neg hk]
      exact h.granted k x hx
  · rw [get] at hr
    rcases eq_or_ne k cookie with rfl | hne
    · rw [Function.update_self] at hk
      cases hk
    · rw [Function.update_of_ne hne] at hk
      rw [if_neg hne] at hr
      exact h.stale k r hk hr

/-- A cookie is signed out. -/
theorem Tracks.signOut {l : List Action} {c c' : Console} {g : Grants} (h : Tracks l c g)
    {cookie : String} (hn : c'.now = c.now) (hg : c'.generation = c.generation)
    (ha : c'.admin = c.admin.filter fun auth => !(auth.token = cookie)) :
    Tracks l c' (Function.update g cookie none) := by
  have other : ∀ k ≠ cookie, c'.admin.get k = c.admin.get k := by
    intro k hk
    rw [ha, Table.get_filter]
    cases hr : c.admin.get k with
    | none => rfl
    | some r =>
      have : r.token ≠ cookie := fun e => hk ((Table.key_of_get hr).symm.trans e)
      simp [Option.filter, this]
  have gone : c'.admin.get cookie = none := by
    rw [ha, Table.get_filter]
    cases hr : c.admin.get cookie with
    | none => rfl
    | some r => simp [Option.filter, Table.key_of_get hr]
  refine ⟨?_, fun k x hx => ?_, fun k r hk hr => ?_, hg ▸ h.current⟩
  · rcases eq_or_ne "" cookie with rfl | hk
    · exact Function.update_self ..
    · rw [Function.update_of_ne hk]
      exact h.blank
  · rcases eq_or_ne k cookie with rfl | hk
    · rw [Function.update_self] at hx
      cases hx
    · rw [Function.update_of_ne hk] at hx
      rw [other k hk, hg, hn]
      exact h.granted k x hx
  · rcases eq_or_ne k cookie with rfl | hne
    · rw [gone] at hr
      cases hr
    · rw [Function.update_of_ne hne] at hk
      rw [other k hne] at hr
      rw [hg]
      exact h.stale k r hk hr

/-- Everybody is signed out: what is stored is of an older generation from now on. -/
theorem Tracks.signOutAll {l l' : List Action} {c c' : Console} {g : Grants} (h : Tracks l c g)
    {value : String} (hl : known l' = none :: some value :: (l.filterMap Action.value).map some)
    (fresh : value ∉ l.filterMap Action.value) (hg : c'.generation = some value)
    (ha : c'.admin = c.admin) : Tracks l' c' fun _ => none := by
  have older : ∀ gen ∈ known l, gen ≠ c'.generation ∧ gen ∈ known l' := by
    intro gen hm
    rw [hl, hg]
    rcases List.mem_cons.1 hm with rfl | hm
    · exact ⟨fun e => (by cases e), List.mem_cons_self⟩
    · refine ⟨fun e => fresh ?_, List.mem_cons_of_mem _ (List.mem_cons_of_mem _ hm)⟩
      obtain ⟨v, hv, rfl⟩ := List.mem_map.1 hm
      rwa [← Option.some.inj e]
  refine ⟨rfl, fun k x hx => (by cases hx), fun k r _ hr => ?_, ?_⟩
  · rw [ha] at hr
    cases hk : g k with
    | none =>
      obtain ⟨secret, gen, he, -, hm⟩ := h.stale k r hk hr
      exact ⟨secret, gen, he, older gen hm⟩
    | some x =>
      obtain ⟨-, hs | ⟨hd, -⟩⟩ := h.granted k x hk
      · rw [hs] at hr
        obtain rfl := Option.some.inj hr
        exact ⟨x.secret, c.generation, rfl, older _ h.current⟩
      · rw [hd] at hr
        cases hr
  · rw [hl, hg]
    exact List.mem_cons_of_mem _ List.mem_cons_self

/-! ### Every run -/

/-- A request is let through when its cookie is good, and a request that changes something also
comes from the console with the CSRF text. -/
theorem isOk_authorize (c : Console) (safe : Bool) (r : Credentials) :
    (c.authorize safe r).isOk = (c.signedIn r.cookie).any fun auth =>
      safe || r.origin = some c.publicOrigin &&
        (isAscii (r.csrf.getD "") && r.csrf.getD "" = auth.csrf) := by
  unfold authorize
  cases c.signedIn r.cookie with
  | none => rfl
  | some auth =>
    cases safe with
    | true => rfl
    | false =>
      by_cases ho : r.origin = some c.publicOrigin
      · by_cases ha : isAscii (r.csrf.getD "") = true
        · by_cases hc : r.csrf.getD "" = auth.csrf
          · rw [hc] at ha
            simp [checkOrigin, compareDigest, ho, ha, hc, bind, Except.bind, pure, Except.pure,
              Except.isOk, Except.toBool]
          · simp [checkOrigin, compareDigest, ho, ha, hc, bind, Except.bind, throw, throwThe,
              MonadExceptOf.throw, Except.isOk, Except.toBool]
        · simp [checkOrigin, compareDigest, ho, ha, bind, Except.bind, Except.isOk, Except.toBool]
      · simp [checkOrigin, ho, bind, Except.bind, Except.isOk, Except.toBool]

/-- **What is good is what is granted.** -/
theorem Tracks.isOk_authorize {l : List Action} {c : Console} {g : Grants} (h : Tracks l c g)
    (gens : ∀ gen ∈ known l, IsGeneration gen) (safe : Bool) (r : Credentials) :
    (c.authorize safe r).isOk = admitted g c safe r := by
  rw [Console.isOk_authorize, admitted, signedIn]
  by_cases hb : r.cookie.getD "" = ""
  · rw [if_pos hb, hb, h.blank]
    rfl
  rw [if_neg hb]
  cases hg : g (r.cookie.getD "") with
  | none =>
    cases hr : c.admin.get (r.cookie.getD "") with
    | none => rfl
    | some auth =>
      obtain ⟨secret, gen, he, hne, hm⟩ := h.stale _ _ hg hr
      have : auth.epoch ≠ c.authEpoch := by
        rw [he]
        exact fun e => hne (epochText_inj (gens gen hm) (gens _ h.current) e).2
      simp [Option.filter, this]
  | some x =>
    obtain ⟨ascii, hs | ⟨hd, he⟩⟩ := h.granted _ _ hg
    · have epoch : epochText x.secret c.generation = c.authEpoch ↔ x.secret = c.adminToken :=
        ⟨fun e => (epochText_inj (gens _ h.current) (gens _ h.current) e).1, fun e => by rw [e]; rfl⟩
      have text : (isAscii (r.csrf.getD "") && decide (r.csrf.getD "" = x.csrf)) =
          decide (r.csrf.getD "" = x.csrf) := by
        by_cases hc : r.csrf.getD "" = x.csrf
        · rw [hc, ascii]
          rfl
        · simp [hc]
      rw [hs]
      by_cases now : x.expires < c.now
      · simp [Option.filter, now]
      · by_cases secret : x.secret = c.adminToken
        · have he := epoch.2 secret
          rw [Option.filter_some, if_pos (by simp [now, he])]
          show (safe || decide _ && (isAscii _ && decide (r.csrf.getD "" = x.csrf))) = (decide _ && _ && _)
          rw [text]
          simp [not_lt.1 now, secret]
        · have he : epochText x.secret c.generation ≠ c.authEpoch := fun e => secret (epoch.1 e)
          simp [Option.filter, secret, he]
    · rw [hd]
      simp [not_le.2 he]

/-- What was drawn before was drawn. -/
theorem Drawn.tail {a : Action} {l : List Action} (h : Drawn (a :: l)) : Drawn l where
  cookies token origin host cookie csrf writes hm :=
    h.cookies token origin host cookie csrf writes (List.mem_cons_of_mem _ hm)
  values := h.values.sublist ((List.sublist_cons_self a l).filterMap _)
  digits v hv := h.digits v (((List.sublist_cons_self a l).filterMap _).subset hv)

/-- The known generations are written as such. -/
theorem Drawn.known {l : List Action} (h : Drawn l) : ∀ gen ∈ known l, IsGeneration gen := by
  rintro gen hm v rfl
  rcases List.mem_cons.1 hm with e | hm
  · cases e
  · obtain ⟨w, hw, e⟩ := List.mem_map.1 hm
    obtain rfl := Option.some.inj e
    exact h.digits w hw

/-- Before the last action the clock had not gone back either. -/
theorem Forward.tail {c : Console} {a : Action} {l : List Action} (h : Forward c (a :: l)) :
    Forward c l := by
  cases a with
  | clock => exact h.2
  | _ => exact h

/-- Every action keeps the store in step with the grants. -/
theorem Tracks.act {l : List Action} {c : Console} {g : Grants} {a : Action} (h : Tracks l c g)
    (drawn : Drawn (a :: l)) (forward : ∀ now, a = .clock now → c.now ≤ now) :
    Tracks (a :: l) (c.act a) (regrant c g a) := by
  have wider : Tracks (a :: l) c g := h.later (known_subset a l) le_rfl rfl rfl
  cases a with
  | login token origin host cookie csrf writes =>
    obtain ⟨hc, ha⟩ := drawn.cookies token origin host cookie csrf writes List.mem_cons_self
    rcases login_cases c token origin host cookie csrf writes with
      ⟨hn, same⟩ | ⟨ho, c', same, ⟨rfl, e⟩ | ⟨deleted, rfl, e⟩⟩
    · have keeps : regrant c g (.login token origin host cookie csrf writes) = g := by
        cases writes with
        | work => exact if_neg hn
        | fail => rfl
      rw [keeps]
      exact wider.later (List.Subset.refl _) same.now.ge same.generation same.admin
    · have before := wider.later (List.Subset.refl _) same.now.ge same.generation same.admin
      have after := (before.dropExpired fun _ => true).grant hc ha
      show Tracks _ (c.login token origin host cookie csrf .work).1 (if _ then _ else _)
      rw [e, if_pos ho, ← same.now, ← same.adminToken]
      exact after
    · show Tracks _ (c.login token origin host cookie csrf (.fail deleted)).1 g
      rw [e]
      exact (wider.later (List.Subset.refl _) same.now.ge same.generation same.admin).dropExpired _
  | logout r stored =>
    show Tracks _ (c.logout r stored).1 _
    unfold logout
    cases ho : c.checkOrigin r.origin with
    | error d =>
      have hn : r.origin ≠ some c.publicOrigin := fun e => by
        rw [checkOrigin_ok.2 e] at ho
        cases ho
      cases stored with
      | true =>
        show Tracks _ c (if _ then _ else _)
        rw [if_neg hn]
        exact wider
      | false => exact wider
    | ok u =>
      have he : r.origin = some c.publicOrigin := checkOrigin_ok.1 ho
      cases stored with
      | true =>
        show Tracks _ _ (if _ then _ else _)
        rw [if_pos he]
        exact wider.signOut rfl rfl rfl
      | false => exact wider
  | logoutAll r value stored =>
    have same := h.isOk_authorize drawn.tail.known false r
    show Tracks _ (c.logoutAll r value stored).1 _
    unfold logoutAll
    cases hr : c.authorize false r with
    | error d =>
      rw [hr] at same
      cases stored with
      | true =>
        show Tracks _ c (if _ then _ else _)
        rw [if_neg (by rw [← same]; exact Bool.false_ne_true)]
        exact wider
      | false => exact wider
    | ok auth =>
      rw [hr] at same
      cases stored with
      | true =>
        show Tracks _ _ (if _ then _ else _)
        have good : admitted g c false r = true := same.symm
        rw [if_pos good]
        exact h.signOutAll rfl (List.nodup_cons.1 drawn.values).1 rfl rfl
      | false => exact wider
  | prune => exact wider.dropExpired _
  | restart => exact wider.later (List.Subset.refl _) le_rfl rfl rfl
  | clock now => exact wider.later (List.Subset.refl _) (forward now rfl) rfl rfl

/-- **The sign-ins follow the grants**, in every run. -/
theorem tracks_after {c : Console} (hg : c.generation = none) (ha : c.admin = .empty)
    {l : List Action} (drawn : Drawn l) (forward : Forward c l) :
    Tracks l (c.after l) (grants c l) := by
  induction l with
  | nil =>
    refine ⟨rfl, fun k x hx => (by cases hx), fun k r _ hr => ?_, ?_⟩
    · have hr : c.admin.get k = some r := hr
      rw [ha] at hr
      cases hr
    · exact hg ▸ List.mem_cons_self
  | cons a l ih =>
    refine (ih drawn.tail forward.tail).act drawn fun now e => ?_
    subst e
    exact forward.1

/-- **A request is let through exactly when its cookie is granted**: by a sign-in with the
secret that is still configured, at most twelve hours ago, that was not taken back. -/
theorem admits (adminToken publicOrigin : String) (now : ℚ) (l : List Action) (drawn : Drawn l)
    (forward : Forward (installed adminToken publicOrigin now) l) (safe : Bool) (r : Credentials) :
    (((installed adminToken publicOrigin now).after l).authorize safe r).isOk =
      admitted (grants (installed adminToken publicOrigin now) l)
        ((installed adminToken publicOrigin now).after l) safe r :=
  (tracks_after rfl rfl drawn forward).isOk_authorize drawn.known safe r

/-- A sign-in, and signing everybody out by another browser. -/
def sampleRun : List Action := [
  .logoutAll ⟨some "other", some "origin", some "second"⟩ "0123456789abcdef0123456789abcdef" true,
  .login "secret" (some "origin") none "other" "second" .work,
  .login "wrong" (some "origin") none "third" "third" .work,
  .login "secret" (some "origin") none "cookie" "first" .work]

/-- The first browser is no longer let in. -/
theorem admits_sample : (((installed "secret" "origin" 0).after sampleRun).authorize true
    ⟨some "cookie", none, none⟩).isOk = false := by
  refine (admits "secret" "origin" 0 sampleRun ⟨fun token origin host cookie csrf writes h => ?_,
    by decide, by decide⟩ ⟨⟩ true ⟨some "cookie", none, none⟩).trans (by decide +kernel)
  simp only [sampleRun, List.mem_cons, Action.login.injEq, List.not_mem_nil, or_false,
    reduceCtorEq, false_or] at h
  rcases h with ⟨-, -, -, rfl, rfl, -⟩ | ⟨-, -, -, rfl, rfl, -⟩ | ⟨-, -, -, rfl, rfl, -⟩
  all_goals exact ⟨by decide, by decide⟩

/-! ### Wrong attempts -/

/-- What is remembered: no more than 10000 sources with a time, and one without; ten times of
each. -/
structure Small (logins : Table (Prod.fst : String × List ℚ → String)) : Prop where
  times : ∀ p ∈ logins.rows, p.2.length ≤ 10
  busy : logins.rows.countP (fun p => p.2 ≠ []) ≤ 10000
  sources : logins.rows.length ≤ 10001

/-- A record that replaces another leaves their number. -/
theorem length_put_of_mem {κ α : Type} [DecidableEq κ] {key : α → κ} {t : Table key} {v : α}
    (h : key v ∈ t.rows.map key) : (t.put v).rows.length = t.rows.length := by
  show (Table.putRows key v t.rows).length = _
  rw [Table.putRows, if_pos h, List.length_map]

/-- A new record comes first. -/
theorem put_of_not_mem {κ α : Type} [DecidableEq κ] {key : α → κ} {t : Table key} {v : α}
    (h : key v ∉ t.rows.map key) : (t.put v).rows = v :: t.rows := if_neg h

/-- A source that is not remembered has an empty bucket. -/
theorem bucket_of_not_mem {c : Console} {source : String} (h : source ∉ c.logins.rows.map Prod.fst) :
    c.bucket source = [] := by
  have : c.logins.get source = none := Table.get_eq_none.2 fun p hp e => h (e ▸ List.mem_map_of_mem hp)
  rw [bucket, this]
  rfl

/-- A bucket of a small table has at most ten attempts. -/
theorem length_bucket {c : Console} (h : Small c.logins) (source : String) :
    (c.bucket source).length ≤ 10 := by
  cases hg : c.logins.get source with
  | none =>
    rw [bucket, hg]
    exact Nat.zero_le _
  | some p =>
    rw [bucket, hg]
    exact h.times p (Table.get_eq_some.1 hg).1

/-- After the sources are looked over, each has a time, and there is room for one more. -/
theorem Small.forget {c : Console} (h : Small c.logins) :
    Small c.forget.logins ∧ c.forget.logins.rows.length ≤ 10000 := by
  have sub : c.forget.logins.rows.Sublist c.logins.rows := List.filter_sublist
  have busy : ∀ p ∈ c.forget.logins.rows, p.2 ≠ [] := by
    rintro ⟨source, times⟩ hp rfl
    have := (List.mem_filter.1 hp).2
    cases this
  have all : c.forget.logins.rows.countP (fun p => p.2 ≠ []) = c.forget.logins.rows.length :=
    List.countP_eq_length.2 fun p hp => by simpa using busy p hp
  have few : c.forget.logins.rows.countP (fun p => p.2 ≠ []) ≤ 10000 := sub.countP_le.trans h.busy
  exact ⟨⟨fun p hp => h.times p (sub.subset hp), few, by omega⟩, by omega⟩

/-- A source is remembered. -/
theorem Small.remember {c : Console} (h : Small c.logins) {source : String} {times : List ℚ}
    (ht : times.length ≤ 10) (few : c.logins.rows.length ≤ 10000)
    (new : source ∉ c.logins.rows.map Prod.fst → times = []) :
    Small (c.remember source times).logins := by
  have mem : ∀ p ∈ (c.logins.put (source, times)).rows, p.2.length ≤ 10 := by
    intro p hp
    rcases Table.mem_put.1 hp with rfl | ⟨hp, -⟩
    · exact ht
    · exact h.times p hp
  by_cases hs : source ∈ c.logins.rows.map Prod.fst
  · have same : (c.logins.put (source, times)).rows.length = c.logins.rows.length :=
      @length_put_of_mem _ _ _ Prod.fst c.logins (source, times) hs
    have busy := List.countP_le_length (p := fun p : String × List ℚ => decide (p.2 ≠ []))
      (l := (c.logins.put (source, times)).rows)
    exact ⟨mem, by show List.countP _ (c.logins.put (source, times)).rows ≤ _; omega,
      by show (c.logins.put (source, times)).rows.length ≤ _; omega⟩
  · have rows : (c.logins.put (source, times)).rows = (source, times) :: c.logins.rows :=
      put_of_not_mem hs
    refine ⟨mem, ?_, ?_⟩
    · show List.countP _ (c.logins.put (source, times)).rows ≤ _
      rw [rows, List.countP_cons_of_neg (by simpa using new hs)]
      exact h.busy
    · show (c.logins.put (source, times)).rows.length ≤ _
      rw [rows, List.length_cons]
      omega

/-- The length of what is left of a bucket. -/
theorem length_trim_le (b : ℚ) (times : List ℚ) : (Window.trim b times).length ≤ times.length :=
  (List.dropWhile_sublist _).length_le

/-- The times left of a source when it is looked at. -/
def recent (c : Console) (source : String) : List ℚ :=
  Window.trim (c.now - 60) (c.forget.bucket source)

/-- What a sign-in does to what is remembered, and when it is answered as wrong. -/
theorem login_logins (c : Console) (token : String) (origin host : Option String)
    (cookie csrf : String) (writes : Writes) :
    let looked := c.forget.remember (host.getD "unknown") (c.recent (host.getD "unknown"))
    let r := c.login token origin host cookie csrf writes
    (origin ≠ some c.publicOrigin ∧ r = (c, .error .invalidOrigin)) ∨
      origin = some c.publicOrigin ∧ ((token ≠ c.adminToken ∧
          (((10 ≤ (c.recent (host.getD "unknown")).length ∨ 10000 < looked.logins.rows.length) ∧
              r = (looked, .error .loginRateLimit)) ∨
            ((c.recent (host.getD "unknown")).length < 10 ∧ looked.logins.rows.length ≤ 10000 ∧
              r = (looked.remember (host.getD "unknown")
                (c.recent (host.getD "unknown") ++ [c.now]), .error .wrongSecret)))) ∨
        token = c.adminToken ∧ r.1.logins = (looked.dropSource (host.getD "unknown")).logins) := by
  intro looked r
  show _ ∧ c.login token origin host cookie csrf writes = _ ∨ _ ∧ (_ ∧ (_ ∧ c.login token origin
    host cookie csrf writes = _ ∨ _ ∧ _ ∧ c.login token origin host cookie csrf writes = _) ∨
    _ ∧ (c.login token origin host cookie csrf writes).1.logins = _)
  unfold login
  cases ho : c.checkOrigin origin with
  | error d =>
    refine .inl ⟨fun e => ?_, ?_⟩
    · rw [checkOrigin_ok.2 e] at ho
      cases ho
    · unfold checkOrigin at ho
      split_ifs at ho
      cases ho
      rfl
  | ok u =>
    refine .inr ⟨checkOrigin_ok.1 ho, ?_⟩
    by_cases ht : token = c.adminToken
    · refine .inr ⟨ht, ?_⟩
      have ht' : ¬token ≠ looked.adminToken := fun h => h ht
      show (if token ≠ looked.adminToken then _ else _ : Console × Except Denial String).1.logins = _
      rw [if_neg ht']
      cases writes with
      | work => rfl
      | fail => rfl
    · refine .inl ⟨ht, ?_⟩
      have ht' : token ≠ looked.adminToken := ht
      by_cases full : 10 ≤ (c.recent (host.getD "unknown")).length ∨ 10000 < looked.logins.rows.length
      · refine .inl ⟨full, ?_⟩
        show (if token ≠ looked.adminToken then _ else _) = _
        rw [if_pos ht']
        exact if_pos full
      · refine .inr ⟨by omega, by omega, ?_⟩
        show (if token ≠ looked.adminToken then _ else _) = _
        rw [if_pos ht']
        exact if_neg full

/-- Every action keeps the table small. -/
theorem Small.act {c : Console} (h : Small c.logins) (a : Action) : Small (c.act a).logins := by
  cases a with
  | login token origin host cookie csrf writes =>
    have times : (c.recent (host.getD "unknown")).length ≤ 10 :=
      (length_trim_le _ _).trans (length_bucket h.forget.1 _)
    have looked : Small (c.forget.remember (host.getD "unknown")
        (c.recent (host.getD "unknown"))).logins :=
      h.forget.1.remember times h.forget.2 fun hn => by
        rw [recent, bucket_of_not_mem hn]
        rfl
    show Small (c.login token origin host cookie csrf writes).1.logins
    rcases login_logins c token origin host cookie csrf writes with
      ⟨-, e⟩ | ⟨-, ⟨-, ⟨-, e⟩ | ⟨few, room, e⟩⟩ | ⟨-, e⟩⟩
    · rw [e]
      exact h
    · rw [e]
      exact looked
    · rw [e]
      refine looked.remember (by rw [List.length_append, List.length_singleton]; omega) room fun hn => ?_
      refine absurd (List.mem_map.2 ⟨_, Table.mem_put.2 (.inl rfl), ?_⟩) hn
      rfl
    · rw [e]
      have sub : ((c.forget.remember (host.getD "unknown") (c.recent (host.getD "unknown"))).dropSource
          (host.getD "unknown")).logins.rows.Sublist _ := List.filter_sublist
      exact ⟨fun p hp => looked.times p (sub.subset hp), sub.countP_le.trans looked.busy,
        sub.length_le.trans looked.sources⟩
  | logout r stored =>
    show Small (c.logout r stored).1.logins
    unfold logout
    split
    · exact h
    · split_ifs
      · exact h
      · exact h
  | logoutAll r value stored =>
    show Small (c.logoutAll r value stored).1.logins
    unfold logoutAll
    split
    · exact h
    · split_ifs
      · exact h
      · exact h
  | prune => exact h
  | restart => exact ⟨fun p hp => (by cases hp), Nat.zero_le _, Nat.zero_le _⟩
  | clock => exact h

/-- **What is remembered of wrong attempts is bounded**, whoever makes them and whatever the
clock does: ten times of at most 10001 sources. -/
theorem remembersFew (adminToken publicOrigin : String) (now : ℚ) (l : List Action) :
    (((installed adminToken publicOrigin now).after l).logins.rows.length ≤ 10001) ∧
      ∀ p ∈ ((installed adminToken publicOrigin now).after l).logins.rows, p.2.length ≤ 10 := by
  have small : Small ((installed adminToken publicOrigin now).after l).logins := by
    induction l with
    | nil => exact ⟨fun p hp => (by cases hp), Nat.zero_le _, Nat.zero_le _⟩
    | cons a l ih => exact ih.act a
  exact ⟨small.sources, small.times⟩

/-- The times at which attempts of the source were answered as wrong, oldest first, since it
last signed in and the process started. -/
def wrongTimes (c : Console) (source : String) : List Action → List ℚ
  | [] => []
  | .login token origin host cookie csrf writes :: l =>
      if host.getD "unknown" = source ∧ origin = some (c.after l).publicOrigin then
        if token = (c.after l).adminToken then []
        else if ((c.after l).login token origin host cookie csrf writes).2 = .error .wrongSecret then
          wrongTimes c source l ++ [(c.after l).now]
        else wrongTimes c source l
      else wrongTimes c source l
  | .restart _ _ :: _ => []
  | _ :: l => wrongTimes c source l

/-- The bucket of a source is what is left of its wrong attempts, and no sixty seconds had
more than ten. -/
def Throttled (c : Console) (history bucket : List ℚ) : Prop :=
  Window.Kept 60 c.now history bucket ∧ ∀ b, Window.within b (b + 60) history ≤ 10

/-- Remembering a source changes its bucket only. -/
theorem bucket_remember (c : Console) (source s : String) (times : List ℚ) :
    (c.remember source times).bucket s = if s = source then times else c.bucket s := by
  show ((Option.map Prod.snd ((c.logins.put (source, times)).get s))).getD [] = _
  rw [Table.get_put]
  show ((if s = source then some (source, times) else c.logins.get s).map Prod.snd).getD [] = _
  split_ifs
  · rfl
  · rfl

/-- Forgetting a source empties its bucket only. -/
theorem bucket_dropSource (c : Console) (source s : String) :
    (c.dropSource source).bucket s = if s = source then [] else c.bucket s := by
  show ((Option.map Prod.snd ((c.logins.filter _).get s))).getD [] = _
  rw [Table.get_filter]
  cases hg : c.logins.get s with
  | none => simp [bucket, hg]
  | some p =>
    have hp : p.1 = s := Table.key_of_get hg
    by_cases hs : s = source
    · simp [Option.filter, hp, hs]
    · simp [Option.filter, bucket, hg, hp, hs]

/-- A source that is forgotten has no time left in the window. -/
theorem kept_forget {c : Console} {history : List ℚ} {s : String}
    (h : Window.Kept 60 c.now history (c.bucket s)) :
    Window.Kept 60 c.now history (c.forget.bucket s) := by
  have get : c.forget.logins.get s =
      (c.logins.get s).filter fun p => p.2.getLast?.any fun last => c.now - 60 ≤ last :=
    Table.get_filter ..
  cases hg : c.logins.get s with
  | none =>
    have same : c.forget.bucket s = c.bucket s := by
      rw [bucket, bucket, get, hg]
      rfl
    rw [same]
    exact h
  | some p =>
    have hb : c.bucket s = p.2 := by
      rw [bucket, hg]
      rfl
    cases keep : p.2.getLast?.any fun last => decide (c.now - 60 ≤ last) with
    | true =>
      have same : c.forget.bucket s = c.bucket s := by
        rw [bucket, bucket, get, hg, Option.filter_some, if_pos keep]
      rw [same]
      exact h
    | false =>
      have gone : c.forget.bucket s = [] := by
        rw [bucket, get, hg, Option.filter_some, if_neg (by rw [keep]; exact Bool.false_ne_true)]
        rfl
      rw [hb] at h
      obtain ⟨old, ho, hold⟩ := h.dropped
      rw [gone]
      refine ⟨h.sorted, h.past, history, (List.append_nil _).symm, fun a ha => ?_⟩
      rw [ho] at ha
      rcases List.mem_append.1 ha with ha | ha
      · exact hold a ha
      · -- The times are in order, and the last one has left the window.
        have some : p.2 ≠ [] := List.ne_nil_of_mem ha
        have last : p.2.getLast some < c.now - 60 := by
          rw [List.getLast?_eq_some_getLast some, Option.any_some, decide_eq_false_iff_not] at keep
          exact not_le.1 keep
        have sorted : p.2.Pairwise (· ≤ ·) := by
          have hs := h.sorted
          rw [ho] at hs
          exact (List.pairwise_append.1 hs).2.1
        refine lt_of_le_of_lt ?_ last
        rw [← List.dropLast_append_getLast some] at ha sorted
        rcases List.mem_append.1 ha with ha | ha
        · exact (List.pairwise_append.1 sorted).2.2 a ha _ (List.mem_singleton.2 rfl)
        · exact (List.mem_singleton.1 ha).le

/-- Every action keeps the buckets in step with the wrong attempts. -/
theorem Throttled.act {c₀ : Console} {l : List Action} {a : Action}
    (h : ∀ s, Throttled (c₀.after l) (wrongTimes c₀ s l) ((c₀.after l).bucket s))
    (forward : ∀ now, a = .clock now → (c₀.after l).now ≤ now) (s : String) :
    Throttled (c₀.after (a :: l)) (wrongTimes c₀ s (a :: l)) ((c₀.after (a :: l)).bucket s) := by
  have none : ∀ now, Window.Kept 60 now ([] : List ℚ) [] ∧
      ∀ b, Window.within b (b + 60) ([] : List ℚ) ≤ 10 :=
    fun now => ⟨.nil 60 now, fun b => Nat.zero_le 10⟩
  cases a with
  | login token origin host cookie csrf writes =>
    obtain ⟨c, hc⟩ : ∃ c, c = c₀.after l := ⟨_, rfl⟩
    show Throttled ((c₀.after l).login token origin host cookie csrf writes).1 _
      (((c₀.after l).login token origin host cookie csrf writes).1.bucket s)
    rw [wrongTimes]
    rw [← hc] at h ⊢
    have kept := fun s => kept_forget (h s).1
    have left : Window.Kept 60 c.now (wrongTimes c₀ (host.getD "unknown") l)
        (c.recent (host.getD "unknown")) := (kept _).trim
    rcases login_logins c token origin host cookie csrf writes with
      ⟨ho, e⟩ | ⟨ho, ⟨ht, ⟨-, e⟩ | ⟨few, -, e⟩⟩ | ⟨ht, e⟩⟩
    · rw [e, if_neg fun hs => ho hs.2]
      exact h s
    · rw [e]
      show Throttled _ _ ((c.forget.remember _ _).bucket s)
      have refused : (.error .loginRateLimit : Except Denial String) ≠ .error .wrongSecret := by decide
      rw [bucket_remember, if_neg ht, if_neg refused, ite_self]
      split_ifs with hs
      · subst hs
        exact ⟨left, (h _).2⟩
      · exact ⟨kept s, (h s).2⟩
    · rw [e]
      show Throttled _ _ (((c.forget.remember _ _).remember _ _).bucket s)
      rw [bucket_remember, bucket_remember, if_neg ht, if_pos rfl]
      by_cases hs : s = host.getD "unknown"
      · subst hs
        rw [if_pos rfl, if_pos ⟨rfl, ho⟩]
        refine ⟨left.push, Window.within_push (h _).2 (h _).1.past ?_⟩
        rw [← (kept _).length_trim]
        exact few
      · rw [if_neg hs, if_neg hs, if_neg fun hs' => hs hs'.1.symm]
        exact ⟨kept s, (h s).2⟩
    · have same : (c.login token origin host cookie csrf writes).1.now = c.now := by
        rcases login_cases c token origin host cookie csrf writes with
          ⟨-, hn⟩ | ⟨-, c', hn, ⟨-, e'⟩ | ⟨_, -, e'⟩⟩
        · exact hn.now
        · rw [e']
          exact hn.now
        · rw [e']
          exact hn.now
      have buckets : (c.login token origin host cookie csrf writes).1.bucket s =
          ((c.forget.remember (host.getD "unknown")
            (c.recent (host.getD "unknown"))).dropSource (host.getD "unknown")).bucket s := by
        rw [bucket, e]
        rfl
      rw [buckets, bucket_dropSource, bucket_remember, if_pos ht, Throttled, same]
      by_cases hs : s = host.getD "unknown"
      · rw [if_pos hs, if_pos ⟨hs.symm, ho⟩]
        exact none _
      · rw [if_neg hs, if_neg hs, if_neg fun hs' => hs hs'.1.symm]
        exact ⟨kept s, (h s).2⟩
  | logout r stored =>
    show Throttled ((c₀.after l).logout r stored).1 (wrongTimes c₀ s l)
      (((c₀.after l).logout r stored).1.bucket s)
    unfold logout
    split
    · exact h s
    · split_ifs
      · exact h s
      · exact h s
  | logoutAll r value stored =>
    show Throttled ((c₀.after l).logoutAll r value stored).1 (wrongTimes c₀ s l)
      (((c₀.after l).logoutAll r value stored).1.bucket s)
    unfold logoutAll
    split
    · exact h s
    · split_ifs
      · exact h s
      · exact h s
  | prune => exact h s
  | restart => exact none _
  | clock now => exact ⟨(h s).1.later (forward now rfl), (h s).2⟩

/-- A wrong attempt is answered as wrong, and recorded, if fewer than ten of its source were in
the last minute and at most 10,000 sources are remembered.  It is refused with 429 otherwise, and
of its source nothing is remembered but what was. -/
def AnswersWrong (c : Console) (history : String → List ℚ) : Prop :=
  ∀ token host cookie csrf writes, token ≠ c.adminToken →
    let source := host.getD "unknown"
    let looked := c.forget.remember source (c.recent source)
    c.login token (some c.publicOrigin) host cookie csrf writes =
      if Window.within (c.now - 60) c.now (history source) < 10 ∧ looked.logins.rows.length ≤ 10000 then
        (looked.remember source (c.recent source ++ [c.now]), .error .wrongSecret)
      else (looked, .error .loginRateLimit)

/-- The buckets decide by the attempts of the last minute. -/
theorem Throttled.answers {c : Console} {history : String → List ℚ}
    (h : ∀ s, Throttled c (history s) (c.bucket s)) : AnswersWrong c history := by
  intro token host cookie csrf writes ht source looked
  have length : (c.recent source).length = Window.within (c.now - 60) c.now (history source) :=
    (kept_forget (h source).1).length_trim
  rcases login_logins c token (some c.publicOrigin) host cookie csrf writes with
    ⟨ho, -⟩ | ⟨-, ⟨-, ⟨full, e⟩ | ⟨few, room, e⟩⟩ | ⟨he, -⟩⟩
  · exact absurd rfl ho
  · have full : 10 ≤ (c.recent source).length ∨ 10000 < looked.logins.rows.length := full
    rw [e, if_neg]
    rw [← length]
    omega
  · have few : (c.recent source).length < 10 := few
    rw [e, if_pos]
    exact ⟨length ▸ few, room⟩
  · exact absurd he ht

/-- **No source has more than ten attempts answered as wrong in any sixty seconds** between
two sign-ins of its own, while the process lives and the clock does not go back.  The others are
refused, and not recorded. -/
theorem throttles (adminToken publicOrigin : String) (now : ℚ) (l : List Action)
    (forward : Forward (installed adminToken publicOrigin now) l) :
    (∀ source b, Window.within b (b + 60)
      (wrongTimes (installed adminToken publicOrigin now) source l) ≤ 10) ∧
    AnswersWrong ((installed adminToken publicOrigin now).after l)
      fun source => wrongTimes (installed adminToken publicOrigin now) source l := by
  have throttled : ∀ s, Throttled ((installed adminToken publicOrigin now).after l)
      (wrongTimes (installed adminToken publicOrigin now) s l)
      (((installed adminToken publicOrigin now).after l).bucket s) := by
    induction l with
    | nil => exact fun s => ⟨.nil 60 _, fun b => Nat.zero_le 10⟩
    | cons a l ih =>
      refine Throttled.act (ih forward.tail) fun now e => ?_
      subst e
      exact forward.1
  exact ⟨fun source => (throttled source).2, Throttled.answers throttled⟩

/-- Ten wrong attempts of one source, and a second. -/
def tenWrong : List Action :=
  .clock 1 :: List.replicate 10 (.login "wrong" (some "origin") none "b" "b" .work)

/-- The eleventh wrong attempt within a second is refused. -/
theorem throttles_eleven :
    (((installed "secret" "origin" 0).after tenWrong).login "wrong" (some "origin") none "a" "a" .work).2 =
      .error .loginRateLimit ∧
    Window.within 0 60 (wrongTimes (installed "secret" "origin" 0) "unknown" tenWrong) = 10 := by
  have forward : Forward (installed "secret" "origin" 0) tenWrong := ⟨by decide +kernel, by simp [Forward]⟩
  have full : Window.within 0 60 (wrongTimes (installed "secret" "origin" 0) "unknown" tenWrong) = 10 := by
    decide +kernel
  obtain ⟨-, answers⟩ := throttles "secret" "origin" 0 tenWrong forward
  have origin : ((installed "secret" "origin" 0).after tenWrong).publicOrigin = "origin" := by
    decide +kernel
  have refused := answers "wrong" none "a" "a" .work (by decide +kernel)
  rw [origin] at refused
  exact ⟨congrArg Prod.snd (refused.trans (if_neg (by decide +kernel))), full⟩

end Console
end MorpheusGateway
