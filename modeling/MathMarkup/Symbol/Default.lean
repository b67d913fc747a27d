/-!
# The default symbols

What each command without arguments stands for, by category. The names start with a backslash,
except for the plain characters of the last category. Within a category no name occurs twice.
-/

namespace MathMarkup.Symbol.Default

/-- Greek letters, shown as identifiers. -/
def greekLetters : List (String × String) :=
  [("\\alpha", "α"), ("\\beta", "β"), ("\\gamma", "γ"), ("\\delta", "δ"), ("\\epsilon", "ϵ"),
   ("\\varepsilon", "ε"), ("\\zeta", "ζ"), ("\\eta", "η"), ("\\theta", "θ"), ("\\vartheta", "ϑ"),
   ("\\iota", "ι"), ("\\kappa", "κ"), ("\\varkappa", "ϰ"), ("\\lambda", "λ"), ("\\mu", "μ"),
   ("\\nu", "ν"), ("\\xi", "ξ"), ("\\omicron", "ο"), ("\\pi", "π"), ("\\varpi", "ϖ"),
   ("\\rho", "ρ"), ("\\varrho", "ϱ"), ("\\sigma", "σ"), ("\\varsigma", "ς"), ("\\tau", "τ"),
   ("\\upsilon", "υ"), ("\\phi", "ϕ"), ("\\varphi", "φ"), ("\\chi", "χ"), ("\\psi", "ψ"),
   ("\\omega", "ω"), ("\\digamma", "ϝ"), ("\\Gamma", "Γ"), ("\\Delta", "Δ"), ("\\Theta", "Θ"),
   ("\\Lambda", "Λ"), ("\\Xi", "Ξ"), ("\\Pi", "Π"), ("\\Sigma", "Σ"), ("\\Upsilon", "Υ"),
   ("\\Phi", "Φ"), ("\\Psi", "Ψ"), ("\\Omega", "Ω"), ("\\Alpha", "Α"), ("\\Beta", "Β"),
   ("\\Epsilon", "Ε"), ("\\Zeta", "Ζ"), ("\\Eta", "Η"), ("\\Iota", "Ι"), ("\\Kappa", "Κ"),
   ("\\Mu", "Μ"), ("\\Nu", "Ν"), ("\\Omicron", "Ο"), ("\\Rho", "Ρ"), ("\\Tau", "Τ"),
   ("\\Chi", "Χ"), ("\\varGamma", "Γ"), ("\\varDelta", "Δ"), ("\\varTheta", "Θ"),
   ("\\varLambda", "Λ"), ("\\varXi", "Ξ"), ("\\varPi", "Π"), ("\\varSigma", "Σ"),
   ("\\varUpsilon", "Υ"), ("\\varPhi", "Φ"), ("\\varPsi", "Ψ"), ("\\varOmega", "Ω")]

/-- Signs that stand for a name, shown as identifiers. -/
def letterlike : List (String × String) :=
  [("\\infty", "∞"), ("\\partial", "∂"), ("\\nabla", "∇"), ("\\emptyset", "∅"),
   ("\\varnothing", "∅"), ("\\ell", "ℓ"), ("\\hbar", "ℏ"), ("\\hslash", "ℏ"), ("\\aleph", "ℵ"),
   ("\\beth", "ℶ"), ("\\gimel", "ℷ"), ("\\daleth", "ℸ"), ("\\imath", "ı"), ("\\jmath", "ȷ"),
   ("\\Re", "ℜ"), ("\\Im", "ℑ"), ("\\wp", "℘"), ("\\prime", "′"), ("\\angle", "∠"),
   ("\\triangle", "△"), ("\\top", "⊤"), ("\\bot", "⊥"), ("\\degree", "°"), ("\\complement", "∁"),
   ("\\eth", "ð"), ("\\clubsuit", "♣"), ("\\diamondsuit", "♢"), ("\\heartsuit", "♡"),
   ("\\spadesuit", "♠"), ("\\square", "□"), ("\\circle", "○"), ("\\measuredangle", "∡"),
   ("\\sphericalangle", "∢")]

/-- Binary operators, relations, arrows, quantifiers and dots. -/
def operators : List (String × String) :=
  [("\\pm", "±"), ("\\mp", "∓"), ("\\times", "×"), ("\\div", "÷"), ("\\cdot", "⋅"),
   ("\\ast", "∗"), ("\\star", "⋆"), ("\\circ", "∘"), ("\\bullet", "∙"), ("\\oplus", "⊕"),
   ("\\ominus", "⊖"), ("\\otimes", "⊗"), ("\\oslash", "⊘"), ("\\odot", "⊙"), ("\\wedge", "∧"),
   ("\\land", "∧"), ("\\vee", "∨"), ("\\lor", "∨"), ("\\cap", "∩"), ("\\cup", "∪"),
   ("\\sqcap", "⊓"), ("\\sqcup", "⊔"), ("\\setminus", "∖"), ("\\uplus", "⊎"), ("\\dagger", "†"),
   ("\\ddagger", "‡"), ("\\amalg", "⨿"), ("\\wr", "≀"), ("\\diamond", "⋄"), ("\\bigcirc", "○"),
   ("\\lhd", "⊲"), ("\\rhd", "⊳"), ("\\unlhd", "⊴"), ("\\unrhd", "⊵"), ("\\triangleleft", "◁"),
   ("\\triangleright", "▷"), ("\\bmod", "mod"), ("\\mod", "mod"), ("\\neq", "≠"), ("\\ne", "≠"),
   ("\\leq", "≤"), ("\\le", "≤"), ("\\geq", "≥"), ("\\ge", "≥"), ("\\leqslant", "⩽"),
   ("\\geqslant", "⩾"), ("\\ll", "≪"), ("\\gg", "≫"), ("\\lt", "<"), ("\\gt", ">"),
   ("\\subset", "⊂"), ("\\supset", "⊃"), ("\\subseteq", "⊆"), ("\\supseteq", "⊇"),
   ("\\subsetneq", "⊊"), ("\\supsetneq", "⊋"), ("\\sqsubseteq", "⊑"), ("\\sqsupseteq", "⊒"),
   ("\\in", "∈"), ("\\notin", "∉"), ("\\ni", "∋"), ("\\notni", "∌"), ("\\sim", "∼"),
   ("\\simeq", "≃"), ("\\approx", "≈"), ("\\cong", "≅"), ("\\equiv", "≡"), ("\\propto", "∝"),
   ("\\parallel", "∥"), ("\\nparallel", "∦"), ("\\perp", "⊥"), ("\\mid", "∣"), ("\\nmid", "∤"),
   ("\\vdash", "⊢"), ("\\dashv", "⊣"), ("\\models", "⊨"), ("\\prec", "≺"), ("\\succ", "≻"),
   ("\\preceq", "⪯"), ("\\succeq", "⪰"), ("\\doteq", "≐"), ("\\asymp", "≍"), ("\\bowtie", "⋈"),
   ("\\smile", "⌣"), ("\\frown", "⌢"), ("\\colon", ":"), ("\\coloneqq", "≔"),
   ("\\trianglelefteq", "⊴"), ("\\trianglerighteq", "⊵"), ("\\to", "→"), ("\\rightarrow", "→"),
   ("\\leftarrow", "←"), ("\\gets", "←"), ("\\leftrightarrow", "↔"), ("\\Rightarrow", "⇒"),
   ("\\Leftarrow", "⇐"), ("\\Leftrightarrow", "⇔"), ("\\implies", "⟹"), ("\\impliedby", "⟸"),
   ("\\iff", "⟺"), ("\\longrightarrow", "⟶"), ("\\longleftarrow", "⟵"),
   ("\\longleftrightarrow", "⟷"), ("\\Longrightarrow", "⟹"), ("\\Longleftarrow", "⟸"),
   ("\\Longleftrightarrow", "⟺"), ("\\mapsto", "↦"), ("\\longmapsto", "⟼"), ("\\uparrow", "↑"),
   ("\\downarrow", "↓"), ("\\updownarrow", "↕"), ("\\Uparrow", "⇑"), ("\\Downarrow", "⇓"),
   ("\\Updownarrow", "⇕"), ("\\hookrightarrow", "↪"), ("\\hookleftarrow", "↩"),
   ("\\rightharpoonup", "⇀"), ("\\rightharpoondown", "⇁"), ("\\leftharpoonup", "↼"),
   ("\\leftharpoondown", "↽"), ("\\rightleftharpoons", "⇌"), ("\\nearrow", "↗"),
   ("\\searrow", "↘"), ("\\swarrow", "↙"), ("\\nwarrow", "↖"), ("\\forall", "∀"),
   ("\\exists", "∃"), ("\\nexists", "∄"), ("\\neg", "¬"), ("\\lnot", "¬"), ("\\therefore", "∴"),
   ("\\because", "∵"), ("\\ldots", "…"), ("\\dots", "…"), ("\\cdots", "⋯"), ("\\vdots", "⋮"),
   ("\\ddots", "⋱")]

/-- Delimiters, which do not stretch by themselves. -/
def fences : List (String × String) :=
  [("\\\x7b", "\x7b"), ("\\\x7d", "\x7d"), ("\\lbrace", "\x7b"), ("\\rbrace", "\x7d"),
   ("\\langle", "⟨"), ("\\rangle", "⟩"), ("\\lfloor", "⌊"), ("\\rfloor", "⌋"), ("\\lceil", "⌈"),
   ("\\rceil", "⌉"), ("\\|", "‖"), ("\\vert", "|"), ("\\Vert", "‖"), ("\\lvert", "|"),
   ("\\rvert", "|"), ("\\lVert", "‖"), ("\\rVert", "‖"), ("\\backslash", "\\"), ("\\lbrack", "["),
   ("\\rbrack", "]"), ("\\ulcorner", "⌜"), ("\\urcorner", "⌝"), ("\\llcorner", "⌞"),
   ("\\lrcorner", "⌟")]

/-- Large operators, whose limits stand below and above. -/
def largeOperators : List (String × String) :=
  [("\\sum", "∑"), ("\\prod", "∏"), ("\\coprod", "∐"), ("\\bigcup", "⋃"), ("\\bigcap", "⋂"),
   ("\\bigoplus", "⨁"), ("\\bigotimes", "⨂"), ("\\bigodot", "⨀"), ("\\bigvee", "⋁"),
   ("\\bigwedge", "⋀"), ("\\bigsqcup", "⨆"), ("\\biguplus", "⨄")]

/-- Integral signs, whose limits stand beside. -/
def integrals : List (String × String) :=
  [("\\int", "∫"), ("\\iint", "∬"), ("\\iiint", "∭"), ("\\oint", "∮"), ("\\oiint", "∯"),
   ("\\oiiint", "∰")]

/-- Names of functions. -/
def functions : List (String × String) :=
  [("\\sin", "sin"), ("\\cos", "cos"), ("\\tan", "tan"), ("\\cot", "cot"), ("\\sec", "sec"),
   ("\\csc", "csc"), ("\\arcsin", "arcsin"), ("\\arccos", "arccos"), ("\\arctan", "arctan"),
   ("\\sinh", "sinh"), ("\\cosh", "cosh"), ("\\tanh", "tanh"), ("\\coth", "coth"),
   ("\\log", "log"), ("\\ln", "ln"), ("\\lg", "lg"), ("\\exp", "exp"), ("\\arg", "arg"),
   ("\\deg", "deg"), ("\\dim", "dim"), ("\\hom", "hom"), ("\\ker", "ker"), ("\\lcm", "lcm")]

/-- Names of functions whose limits stand below and above. -/
def limitFunctions : List (String × String) :=
  [("\\lim", "lim"), ("\\limsup", "lim sup"), ("\\liminf", "lim inf"), ("\\sup", "sup"),
   ("\\inf", "inf"), ("\\max", "max"), ("\\min", "min"), ("\\det", "det"), ("\\gcd", "gcd"),
   ("\\Pr", "Pr"), ("\\argmax", "arg max"), ("\\argmin", "arg min")]

/-- Spaces, with their widths. -/
def spacing : List (String × String) :=
  [("\\quad", "1em"), ("\\qquad", "2em"), ("\\,", "0.1667em"), ("\\thinspace", "0.1667em"),
   ("\\:", "0.2222em"), ("\\>", "0.2222em"), ("\\medspace", "0.2222em"), ("\\;", "0.2778em"),
   ("\\thickspace", "0.2778em"), ("\\!", "-0.1667em"), ("\\negthinspace", "-0.1667em"),
   ("\\ ", "0.25em"), ("\\enspace", "0.5em")]

/-- Characters with a meaning of their own, written behind a backslash. -/
def escapes : List (String × String) :=
  [("\\%", "%"), ("\\$", "$"), ("\\#", "#"), ("\\&", "&"), ("\\_", "_")]

/-- Font commands for mathematics, with the variant they set. -/
def fontVariants : List (String × String) :=
  [("\\mathbf", "bold"), ("\\mathit", "italic"), ("\\mathrm", "normal"),
   ("\\mathsf", "sans-serif"), ("\\mathtt", "monospace"), ("\\mathcal", "script"),
   ("\\mathscr", "script"), ("\\mathbb", "double-struck"), ("\\mathfrak", "fraktur"),
   ("\\boldsymbol", "bold-italic"), ("\\bm", "bold-italic")]

/-- Text commands, with the variant they set. -/
def textVariants : List (String × String) :=
  [("\\text", "normal"), ("\\textrm", "normal"), ("\\textnormal", "normal"), ("\\mbox", "normal"),
   ("\\textbf", "bold"), ("\\textit", "italic"), ("\\emph", "italic"), ("\\textsf", "sans-serif"),
   ("\\texttt", "monospace")]

/-- Accents over a base. -/
def accents : List (String × String) :=
  [("\\hat", "^"), ("\\widehat", "^"), ("\\check", "ˇ"), ("\\tilde", "~"), ("\\widetilde", "~"),
   ("\\bar", "¯"), ("\\overline", "‾"), ("\\vec", "→"), ("\\overrightarrow", "→"),
   ("\\overleftarrow", "←"), ("\\dot", "˙"), ("\\ddot", "¨"), ("\\dddot", "\u20db"),
   ("\\acute", "´"), ("\\grave", "`"), ("\\breve", "˘"), ("\\mathring", "˚"),
   ("\\overbrace", "⏞")]

/-- Accents under a base. -/
def underAccents : List (String × String) :=
  [("\\underline", "_"), ("\\underbrace", "⏟"), ("\\underrightarrow", "→"),
   ("\\underleftarrow", "←")]

/-- Enclosures, with their notation. -/
def enclosures : List (String × String) :=
  [("\\boxed", "box"), ("\\cancel", "updiagonalstrike"), ("\\bcancel", "downdiagonalstrike"),
   ("\\xcancel", "updiagonalstrike downdiagonalstrike")]

/-- Sized delimiters, with their size. -/
def delimiterSizes : List (String × String) :=
  [("\\big", "1.2em"), ("\\bigl", "1.2em"), ("\\bigr", "1.2em"), ("\\bigm", "1.2em"),
   ("\\Big", "1.623em"), ("\\Bigl", "1.623em"), ("\\Bigr", "1.623em"), ("\\Bigm", "1.623em"),
   ("\\bigg", "2.047em"), ("\\biggl", "2.047em"), ("\\biggr", "2.047em"), ("\\biggm", "2.047em"),
   ("\\Bigg", "2.470em"), ("\\Biggl", "2.470em"), ("\\Biggr", "2.470em"), ("\\Biggm", "2.470em")]

/-- Plain characters shown as operators. -/
def symbolOperators : List (String × String) :=
  [("+", "+"), ("-", "−"), ("*", "∗"), ("/", "/"), ("=", "="), ("<", "<"), (">", ">"), ("(", "("),
   (")", ")"), ("|", "|"), (",", ","), (";", ";"), (":", ":"), ("!", "!"), ("?", "?"), (".", "."),
   ("'", "′")]

end MathMarkup.Symbol.Default
