import Mailout.Export.Pipeline
import Mathlib.Data.List.Basic
import Mathlib.Tactic.Choose

/-!
# How an export comes out

An export comes out in one of six ways (`ComesOut`): one for each stage that can fail, and one for
an export that is done. Each says what the renderer and the compiler were asked, what they answered,
and what the result is made of.

They run in a monad of the caller's, which is any lawful one. What is said of an export is therefore
said of all that the computation can give (`Always`), and the proofs go from stage to stage: an
export goes on with the answer that it got, or ends (`run_bind_stage_ok`, `run_bind_call`).

## Main statements

* `always_comesOut` — every export comes out in one of these ways;
* `ComesOut.unique` — the answers decide what comes out;
* `run_watched` — the export is the same when nobody watches;
* `run_relabel` — what diagnostics have no part in;
* `run_stages` — all this together, and when an export is done.
-/

namespace Mailout

/-! ## What a computation always gives -/

section Always

variable {m : Type → Type} {α β : Type} {p : α → Prop} {q : β → Prop}

/-- Everything that the computation gives has the property. This asks nothing else of the monad, such
as a weakest precondition for its operations. -/
def Always [Monad m] (p : α → Prop) (x : m α) : Prop :=
  ∃ x' : m { a // p a }, Subtype.val <$> x' = x

/-- Where a computation is its value, that is what it always gives. -/
theorem always_id_iff {x : Id α} : Always p x ↔ p x := by
  constructor
  · rintro ⟨x', rfl⟩
    exact x'.property
  · intro h
    exact ⟨⟨x, h⟩, rfl⟩

variable [Monad m] [LawfulMonad m]

/-- Nothing is asked of what the computation gives. -/
theorem always_true (x : m α) : Always (fun _ => True) x :=
  ⟨(fun a => ⟨a, trivial⟩) <$> x, by rw [← comp_map]; exact id_map x⟩

theorem always_pure {a : α} (h : p a) : Always p (pure a : m α) :=
  ⟨pure ⟨a, h⟩, map_pure _ _⟩

theorem Always.bind {x : m α} {f : α → m β} (hx : Always p x) (hf : ∀ a, p a → Always q (f a)) :
    Always q (x >>= f) := by
  obtain ⟨x', rfl⟩ := hx
  choose f' hf' using hf
  refine ⟨x' >>= fun a => f' a a.property, ?_⟩
  rw [map_bind, bind_map_left]
  exact bind_congr fun a => hf' a a.property

theorem Always.imp {x : m α} {p' : α → Prop} (hx : Always p x) (h : ∀ a, p a → p' a) :
    Always p' x := by
  have hpure := hx.bind fun a ha => always_pure (m := m) (h a ha)
  rwa [bind_pure] at hpure

end Always

/-! ## One stage -/

namespace ExportM

variable {m : Type → Type} [Monad m] [LawfulMonad m] {ε κ α β : Type}
  {wrapError : κ → ExportError ε} {next : α → ExportM ε m β} {log : List LogEntry}

theorem run_report (entries : List LogEntry) :
    (report entries : ExportM ε m Unit).run.run log = pure (.ok (), log ++ entries) := by
  show (Except.ok <$> (modify (· ++ entries) : StateT (List LogEntry) m Unit)).run log = _
  rw [StateT.run_map, StateT.run_modify, map_pure]

theorem run_bind_report (entries : List LogEntry) (next : Unit → ExportM ε m β) :
    (report entries >>= next).run.run log = (next ()).run.run (log ++ entries) := by
  rw [ExceptT.run_bind, StateT.run_bind, run_report, pure_bind]

theorem run_bind_stage_ok (a : α) :
    (stage (.ok a) wrapError >>= next).run.run log = (next a).run.run log := by
  simp [stage]

theorem run_bind_stage_error (err : κ) :
    (stage (.error err) wrapError >>= next).run.run log = pure (.error (wrapError err), log) := by
  simp [stage]

theorem run_call (answer : m (Except κ α)) :
    (call answer wrapError).run.run log
      = answer >>= fun result => (stage result wrapError).run.run log := by
  unfold call
  rw [ExceptT.run_bind, StateT.run_bind]
  simp [liftM, monadLift, MonadLift.monadLift]

theorem run_bind_call (answer : m (Except κ α)) :
    (call answer wrapError >>= next).run.run log
      = answer >>= fun result => (stage result wrapError >>= next).run.run log := by
  simp only [ExceptT.run_bind, StateT.run_bind, run_call, bind_assoc]

end ExportM

theorem run_bind_noting {m : Type → Type} [Monad m] [LawfulMonad m] {α β χ : Type} {note : α → χ}
    {x : m α} {next : α → StateT (List χ) m β} {notes : List χ} :
    (noting note x >>= next).run notes = x >>= fun a => (next a).run (notes ++ [note a]) := by
  simp [noting]

/-! ## The ways to come out -/

/-- The exchange is an answer of these functions. -/
def Exchange.IsBy {δ ε : Type} (render : δ → Except ε Text)
    (compile : Text → Except ε CompileOutput) : Exchange δ ε → Prop
  | .render document answer => render document = answer
  | .compile markup answer => compile markup = answer

namespace Exporter

open ExportM

variable {δ ε : Type} {m : Type → Type} {registry : PresetRegistry} {document : δ}
  {ref : PresetRef} {options : ExportOptions}

/-- What the renderer and the compiler answer when they are asked always has the property. -/
structure Honours [Monad m] (e : Exporter δ ε m) (q : Exchange δ ε → Prop) : Prop where
  renderer : ∀ document, Always (fun answer => q (.render document answer)) (e.renderer document)
  compiler : ∀ markup, Always (fun answer => q (.compile markup answer)) (e.compiler markup)

/-- How an export comes out, and what the renderer and the compiler were asked and answered. -/
inductive ComesOut (registry : PresetRegistry) (document : δ) (ref : PresetRef)
    (options : ExportOptions) :
    Except (ExportError ε) ExportResult → List (Exchange δ ε) → Prop where
  | unresolved {err : ExportError ε} (resolve : registry.resolve ref = .error err) :
    ComesOut registry document ref options (.error err) []
  | unrendered {preset : Preset} {found : List LogEntry} {cause : ε}
    (resolve : (registry.resolve ref : Except (ExportError ε) _) = .ok (preset, found)) :
    ComesOut registry document ref options (.error (.render cause))
      [.render document (.error cause)]
  | unstripped {preset : Preset} {found : List LogEntry} {rendered : Text} {err : RewriteError}
    (resolve : (registry.resolve ref : Except (ExportError ε) _) = .ok (preset, found))
    (strip : strip rendered = .error err) :
    ComesOut registry document ref options (.error (.rewrite err.message))
      [.render document (.ok rendered)]
  | uncompiled {preset : Preset} {found : List LogEntry} {rendered stripped : Text} {cause : ε}
    (resolve : (registry.resolve ref : Except (ExportError ε) _) = .ok (preset, found))
    (strip : strip rendered = .ok stripped) :
    ComesOut registry document ref options (.error (.compile cause))
      [.render document (.ok rendered),
        .compile (preset.transform options.overrides stripped) (.error cause)]
  | unstrippedPage {preset : Preset} {found : List LogEntry} {rendered stripped : Text}
    {compiled : CompileOutput} {err : RewriteError}
    (resolve : (registry.resolve ref : Except (ExportError ε) _) = .ok (preset, found))
    (strip : Mailout.strip rendered = .ok stripped) (asked : options.stripCompiled = true)
    (stripPage : Mailout.strip compiled.html = .error err) :
    ComesOut registry document ref options (.error (.rewrite err.message))
      [.render document (.ok rendered),
        .compile (preset.transform options.overrides stripped) (.ok compiled)]
  | done {preset : Preset} {found : List LogEntry} {rendered stripped page : Text}
    {compiled : CompileOutput}
    (resolve : (registry.resolve ref : Except (ExportError ε) _) = .ok (preset, found))
    (strip : Mailout.strip rendered = .ok stripped)
    (stripPage : (if options.stripCompiled then Mailout.strip compiled.html else .ok compiled.html)
      = .ok page) :
    ComesOut registry document ref options
      (.ok {
        html := match options.wrap with
          | some wrap => wrap (preset.postProcess page).1
          | none => (preset.postProcess page).1
        intermediateMarkup := preset.transform options.overrides stripped
        diagnostics := compiled.diagnostics })
      [.render document (.ok rendered),
        .compile (preset.transform options.overrides stripped) (.ok compiled)]

variable [Monad m] [LawfulMonad m]

theorem honours_true (e : Exporter δ ε m) : e.Honours fun _ => True :=
  ⟨fun _ => always_true _, fun _ => always_true _⟩

theorem stripPage_eq_error_iff {html : Text} {err : RewriteError} :
    options.stripPage html = .error err ↔
      options.stripCompiled = true ∧ strip html = .error err := by
  unfold ExportOptions.stripPage
  cases options.stripCompiled <;> simp

theorem applyWrap_eq (html : Text) : options.applyWrap html =
    match options.wrap with
    | some wrap => wrap html
    | none => html := by
  unfold ExportOptions.applyWrap
  cases options.wrap <;> rfl

/-- **An export comes out in one of these ways**, with answers such as the renderer and the compiler
always give. -/
theorem always_comesOut {e : Exporter δ ε m} {q : Exchange δ ε → Prop} (hq : e.Honours q) :
    Always (fun p => ComesOut e.registry document ref options p.1 p.2.exchanges ∧
      ∀ x ∈ p.2.exchanges, q x) (e.run document ref options) := by
  unfold run exportM
  rw [show e.watched.registry = e.registry from rfl]
  cases hresolve : (e.registry.resolve ref : Except (ExportError ε) _) with
  | error err =>
    rw [run_bind_stage_error, StateT.run_pure, pure_bind]
    exact always_pure ⟨.unresolved hresolve, nofun⟩
  | ok found =>
    obtain ⟨preset, found⟩ := found
    simp only [run_bind_stage_ok, run_bind_report, run_bind_call, watched, run_bind_noting,
      bind_assoc]
    refine (hq.renderer document).bind fun answer hrender => ?_
    cases answer with
    | error cause =>
      rw [run_bind_stage_error, StateT.run_pure, pure_bind]
      exact always_pure ⟨.unrendered hresolve, by simpa using hrender⟩
    | ok rendered =>
      rw [run_bind_stage_ok]
      cases hstrip : strip rendered with
      | error err =>
        simp only [run_bind_report, run_bind_stage_error, StateT.run_pure, pure_bind]
        exact always_pure ⟨.unstripped hresolve hstrip, by simpa using hrender⟩
      | ok stripped =>
        simp only [run_bind_stage_ok, run_bind_report, run_bind_call, run_bind_noting, bind_assoc]
        refine (hq.compiler _).bind fun answer hcompile => ?_
        cases answer with
        | error cause =>
          rw [run_bind_stage_error, StateT.run_pure, pure_bind]
          exact always_pure ⟨.uncompiled hresolve hstrip, by simpa using ⟨hrender, hcompile⟩⟩
        | ok compiled =>
          rw [run_bind_stage_ok]
          cases hpage : options.stripPage compiled.html with
          | error err =>
            obtain ⟨hasked, herr⟩ := stripPage_eq_error_iff.mp hpage
            simp only [run_bind_report, run_bind_stage_error, StateT.run_pure, pure_bind]
            exact always_pure ⟨.unstrippedPage hresolve hstrip hasked herr,
              by simpa using ⟨hrender, hcompile⟩⟩
          | ok page =>
            simp only [run_bind_stage_ok, run_bind_report, ExceptT.run_pure, StateT.run_pure,
              pure_bind, applyWrap_eq]
            exact always_pure ⟨.done hresolve hstrip hpage, by simpa using ⟨hrender, hcompile⟩⟩

/-- **The answers decide what comes out.** -/
theorem ComesOut.unique {r r' : Except (ExportError ε) ExportResult} {xs : List (Exchange δ ε)}
    (h : ComesOut registry document ref options r xs)
    (h' : ComesOut registry document ref options r' xs) : r = r' := by
  -- two ways with the same answers agree up to the stage where one ends, and there both end
  generalize hxs : xs = xs' at h'
  cases h <;> cases h' <;> simp_all

/-! ## Stages that succeed -/

/-- What comes out is a page if all stages have succeeded. -/
theorem ComesOut.isOk_iff {r : Except (ExportError ε) ExportResult} {xs : List (Exchange δ ε)}
    (h : ComesOut registry document ref options r xs) :
    (∃ result, r = .ok result) ↔ ∃ preset found rendered stripped compiled,
      (registry.resolve ref : Except (ExportError ε) _) = .ok (preset, found) ∧
      strip rendered = .ok stripped ∧
      xs = [.render document (.ok rendered),
        .compile (preset.transform options.overrides stripped) (.ok compiled)] ∧
      (options.stripCompiled = true → ∃ page, strip compiled.html = .ok page) := by
  constructor
  · rintro ⟨result, rfl⟩
    cases h with
    | done resolve strip stripPage =>
      refine ⟨_, _, _, _, _, resolve, strip, rfl, ?_⟩
      intro hasked
      rw [if_pos hasked] at stripPage
      exact ⟨_, stripPage⟩
  · rintro ⟨preset, found, rendered, stripped, compiled, -, -, rfl, hpage⟩
    generalize hxs : [Exchange.render document (Except.ok rendered),
      Exchange.compile (preset.transform options.overrides stripped) (Except.ok compiled)] = xs at h
    cases h <;> simp_all

/-- Where the renderer and the compiler are functions, these are what they answer as. -/
theorem honours_isBy (e : Exporter δ ε) : e.Honours (Exchange.IsBy e.renderer e.compiler) :=
  ⟨fun _ => always_id_iff.mpr rfl, fun _ => always_id_iff.mpr rfl⟩

/-- What comes out fits the answers of functions in one way only. -/
theorem ComesOut.unique_of_isBy {r r' : Except (ExportError ε) ExportResult}
    {xs xs' : List (Exchange δ ε)} {render : δ → Except ε Text}
    {compile : Text → Except ε CompileOutput}
    (h : ComesOut registry document ref options r xs) (hxs : ∀ x ∈ xs, x.IsBy render compile)
    (h' : ComesOut registry document ref options r' xs')
    (hxs' : ∀ x ∈ xs', x.IsBy render compile) : r = r' ∧ xs = xs' := by
  -- two ways agree up to the stage where one of them ends, and there it ends for both
  cases h <;> cases h' <;> simp_all [Exchange.IsBy]

theorem ComesOut.isOk_iff_of_isBy {r : Except (ExportError ε) ExportResult}
    {xs : List (Exchange δ ε)} {render : δ → Except ε Text}
    {compile : Text → Except ε CompileOutput}
    (h : ComesOut registry document ref options r xs) (hxs : ∀ x ∈ xs, x.IsBy render compile) :
    (∃ result, r = .ok result) ↔ ∃ preset found rendered stripped compiled,
      (registry.resolve ref : Except (ExportError ε) _) = .ok (preset, found) ∧
      render document = .ok rendered ∧ strip rendered = .ok stripped ∧
      compile (preset.transform options.overrides stripped) = .ok compiled ∧
      (options.stripCompiled = true → ∃ page, strip compiled.html = .ok page) := by
  constructor
  · intro hok
    obtain ⟨preset, found, rendered, stripped, compiled, hresolve, hstrip, rfl, hpage⟩ :=
      h.isOk_iff.mp hok
    obtain ⟨hrender, hcompile, -⟩ := List.forall_mem_cons.mp hxs |>.imp id List.forall_mem_cons.mp
    exact ⟨preset, found, rendered, stripped, compiled, hresolve, hrender, hstrip, hcompile, hpage⟩
  · rintro ⟨preset, found, rendered, stripped, compiled, hresolve, hrender, hstrip, hcompile, hpage⟩
    cases h <;> simp_all [Exchange.IsBy]

/-! ## Nobody watching -/

/-- The computation `x` is `y`, but for the notes that it takes. -/
def IsWatched {χ α : Type} (x : ExportM ε (StateT (List χ) m) α) (y : ExportM ε m α) : Prop :=
  ∀ log notes, Prod.fst <$> (x.run.run log).run notes = y.run.run log

section IsWatched

variable {χ κ α β : Type} {x : ExportM ε (StateT (List χ) m) α} {y : ExportM ε m α}
  {wrapError : κ → ExportError ε}

theorem isWatched_pure (a : α) :
    IsWatched (pure a : ExportM ε (StateT (List χ) m) α) (pure a) := by
  intro log notes
  exact map_pure _ _

theorem isWatched_report (entries : List LogEntry) :
    IsWatched (report entries : ExportM ε (StateT (List χ) m) Unit) (report entries) := by
  intro log notes
  rw [run_report, run_report]
  exact map_pure _ _

theorem isWatched_stage (result : Except κ α) :
    IsWatched (stage result wrapError : ExportM ε (StateT (List χ) m) α)
      (stage result wrapError) := by
  intro log notes
  cases result with
  | ok a => exact map_pure _ _
  | error err => exact map_pure _ _

/-- What a watched computation goes on with is watched. -/
theorem IsWatched.bind (h : IsWatched x y) {f : α → ExportM ε (StateT (List χ) m) β}
    {g : α → ExportM ε m β} (hnext : ∀ a, IsWatched (f a) (g a)) :
    IsWatched (x >>= f) (y >>= g) := by
  intro log notes
  rw [ExceptT.run_bind, StateT.run_bind, StateT.run_bind, map_bind, ExceptT.run_bind,
    StateT.run_bind, ← h log notes, bind_map_left]
  refine bind_congr fun result => ?_
  obtain ⟨⟨outcome, log'⟩, notes'⟩ := result
  cases outcome with
  | ok a => exact hnext a log' notes'
  | error err => exact map_pure _ _

/-- A function that notes its answer is the function, watched. -/
theorem isWatched_call (note : Except κ α → χ) (answer : m (Except κ α)) :
    IsWatched (call (noting note answer) wrapError) (call answer wrapError) := by
  intro log notes
  rw [run_call, run_call, run_bind_noting, map_bind]
  exact bind_congr fun result => isWatched_stage result log _

end IsWatched

/-- **The export is the same when nobody watches.** -/
theorem run_watched (e : Exporter δ ε m) (document : δ) (ref : PresetRef)
    (options : ExportOptions) :
    (fun p => (p.1, p.2.log)) <$> e.run document ref options
      = (e.exportM document ref options).run.run [] := by
  have hwatched : IsWatched (e.watched.exportM document ref options)
      (e.exportM document ref options) := by
    unfold exportM
    refine (isWatched_stage _).bind fun found => ?_
    refine (isWatched_report _).bind fun _ => ?_
    refine (isWatched_call _ _).bind fun rendered => ?_
    refine (isWatched_report _).bind fun _ => ?_
    refine (isWatched_stage _).bind fun stripped => ?_
    refine (isWatched_report _).bind fun _ => ?_
    refine (isWatched_call _ _).bind fun compiled => ?_
    refine (isWatched_report _).bind fun _ => ?_
    refine (isWatched_stage _).bind fun page => ?_
    refine (isWatched_report _).bind fun _ => ?_
    exact isWatched_pure _
  rw [← hwatched [] [], run, map_bind, map_eq_pure_bind]
  simp only [map_pure]

/-! ## Diagnostics -/

/-- The exporter with a compiler that says something else about the pages that it makes. -/
def relabel (e : Exporter δ ε m) (f : Text → List Diagnostic → List Diagnostic) :
    Exporter δ ε m where
  renderer := e.renderer
  compiler markup := (Except.map fun c => { c with diagnostics := f markup c.diagnostics }) <$>
    e.compiler markup
  registry := e.registry

/-- **What the compiler says comes out as it is**, and nothing else depends on it. -/
theorem run_relabel (e : Exporter δ ε m) (f : Text → List Diagnostic → List Diagnostic)
    (document : δ) (ref : PresetRef) (options : ExportOptions) :
    (fun p => (p.1, p.2.calls)) <$> (e.relabel f).run document ref options
      = (fun p => (p.1.map fun result =>
          { result with diagnostics := f result.intermediateMarkup result.diagnostics },
          p.2.calls)) <$> e.run document ref options := by
  unfold run exportM
  rw [show (e.relabel f).watched.registry = e.registry from rfl,
    show e.watched.registry = e.registry from rfl]
  cases e.registry.resolve ref with
  | error err =>
    simp only [run_bind_stage_error, StateT.run_pure, pure_bind, map_pure]
    rfl
  | ok found =>
    simp only [run_bind_stage_ok, run_bind_report, run_bind_call, watched, relabel, run_bind_noting,
      bind_assoc, map_bind, map_pure]
    refine bind_congr fun answer => ?_
    cases answer with
    | error cause =>
      simp only [run_bind_stage_error, StateT.run_pure, pure_bind]
      rfl
    | ok rendered =>
      simp only [run_bind_stage_ok, run_bind_report]
      cases strip rendered with
      | error err =>
        simp only [run_bind_stage_error, StateT.run_pure, pure_bind]
        rfl
      | ok stripped =>
        simp only [run_bind_stage_ok, run_bind_report, run_bind_call, run_bind_noting, bind_assoc,
          bind_map_left]
        refine bind_congr fun answer => ?_
        cases answer with
        | error cause =>
          simp only [Except.map, run_bind_stage_error, StateT.run_pure, pure_bind]
        | ok compiled =>
          simp only [Except.map, run_bind_stage_ok, run_bind_report]
          cases options.stripPage compiled.html with
          | error err =>
            simp only [run_bind_stage_error, StateT.run_pure, pure_bind]
            rfl
          | ok page =>
            simp only [run_bind_stage_ok, run_bind_report, ExceptT.run_pure, StateT.run_pure,
              pure_bind]
            rfl

/-! ## The contract of the stages -/

/-- **The first stage that fails decides, and without one the export is done.** Whatever answers the
renderer and the compiler give, and whatever else they do, the export comes out as `ComesOut` says
for these answers and in no other way, and there is a page if all stages that are due succeed. Where
the two answer as functions do, the functions alone decide. The export runs in the same way when
nobody watches. A compiler that says something else about the same pages leads to the same calls and
the same outcome, with these other diagnostics in it. -/
theorem run_stages (e : Exporter δ ε m) (document : δ) (ref : PresetRef) (options : ExportOptions) :
    Always (fun p =>
      (∀ r, ComesOut e.registry document ref options r p.2.exchanges ↔ p.1 = r) ∧
      ((∃ result, p.1 = .ok result) ↔ ∃ preset found rendered stripped compiled,
        (e.registry.resolve ref : Except (ExportError ε) _) = .ok (preset, found) ∧
        strip rendered = .ok stripped ∧
        p.2.exchanges = [.render document (.ok rendered),
          .compile (preset.transform options.overrides stripped) (.ok compiled)] ∧
        (options.stripCompiled = true → ∃ page, strip compiled.html = .ok page)))
      (e.run document ref options) ∧
    (∀ render compile, e.Honours (Exchange.IsBy render compile) → Always (fun p =>
      (∀ r xs, (ComesOut e.registry document ref options r xs ∧ ∀ x ∈ xs, x.IsBy render compile) ↔
        p.1 = r ∧ p.2.exchanges = xs) ∧
      ((∃ result, p.1 = .ok result) ↔ ∃ preset found rendered stripped compiled,
        (e.registry.resolve ref : Except (ExportError ε) _) = .ok (preset, found) ∧
        render document = .ok rendered ∧ strip rendered = .ok stripped ∧
        compile (preset.transform options.overrides stripped) = .ok compiled ∧
        (options.stripCompiled = true → ∃ page, strip compiled.html = .ok page)))
      (e.run document ref options)) ∧
    (fun p => (p.1, p.2.log)) <$> e.run document ref options
      = (e.exportM document ref options).run.run [] ∧
    ∀ f : Text → List Diagnostic → List Diagnostic,
      (fun p => (p.1, p.2.calls)) <$> (e.relabel f).run document ref options
        = (fun p => (p.1.map fun result =>
            { result with diagnostics := f result.intermediateMarkup result.diagnostics },
            p.2.calls)) <$> e.run document ref options := by
  refine ⟨?_, fun render compile h => ?_, run_watched e document ref options,
    fun f => run_relabel e f document ref options⟩
  · refine (always_comesOut e.honours_true).imp ?_
    rintro p ⟨hout, -⟩
    refine ⟨fun r => ⟨fun hout' => hout.unique hout', ?_⟩, hout.isOk_iff⟩
    rintro rfl
    exact hout
  · refine (always_comesOut h).imp ?_
    rintro p ⟨hout, hanswers⟩
    refine ⟨fun r xs => ⟨?_, ?_⟩, hout.isOk_iff_of_isBy hanswers⟩
    · rintro ⟨hout', hanswers'⟩
      exact hout.unique_of_isBy hanswers hout' hanswers'
    · rintro ⟨rfl, rfl⟩
      exact ⟨hout, hanswers⟩

/-- A renderer and a compiler that count their calls, an editor token in the compiled page, and a
last change of the page. -/
theorem run_stages_counted :
    let render (document : Text) : Except Empty Text :=
      .ok ("<p class=\"editor-a\">".toList ++ document ++ "</p>".toList)
    let compile (markup : Text) : Except Empty CompileOutput :=
      .ok ⟨"<body class=\"editor-b\">".toList ++ markup ++ "</body>".toList, [⟨1, "old".toList⟩]⟩
    let e : Exporter Text Empty (StateM Nat) :=
      { renderer := fun document => do modify (· + 1); return render document
        compiler := fun markup => do modify (· + 1); return compile markup }
    let options : ExportOptions := { wrap := some fun html => "<html>".toList ++ html }
    let after := (e.run "\x7b\x7bname\x7d\x7d".toList (.byName "postmark".toList) options).run 0
    e.Honours (Exchange.IsBy render compile) ∧
      after.1.1 = .ok {
        html := "<html><body><p>\x7b\x7bname\x7d\x7d</p></body>".toList
        intermediateMarkup := "<p>\x7b\x7bname\x7d\x7d</p>".toList
        diagnostics := [⟨1, "old".toList⟩] } ∧
      after.1.2.calls = [.render "\x7b\x7bname\x7d\x7d".toList,
        .compile "<p>\x7b\x7bname\x7d\x7d</p>".toList] ∧
      after.2 = 2 ∧
      Always (fun p => ∀ r xs, (ComesOut e.registry "\x7b\x7bname\x7d\x7d".toList
        (.byName "postmark".toList) options r xs ∧ ∀ x ∈ xs, x.IsBy render compile) ↔
          p.1 = r ∧ p.2.exchanges = xs)
        (e.run "\x7b\x7bname\x7d\x7d".toList (.byName "postmark".toList) options) := by
  intro render compile e options after
  have hanswers : e.Honours (Exchange.IsBy render compile) :=
    ⟨fun document => ⟨do modify (· + 1); return ⟨render document, rfl⟩, rfl⟩,
      fun markup => ⟨do modify (· + 1); return ⟨compile markup, rfl⟩, rfl⟩⟩
  refine ⟨hanswers, by decide +kernel, by decide +kernel, by decide +kernel, ?_⟩
  exact ((run_stages e _ _ options).2.1 render compile hanswers).imp fun p hp => hp.1

end Exporter

end Mailout
