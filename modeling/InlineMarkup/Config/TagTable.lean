import InlineMarkup.Text.Basic
import InlineMarkup.Dictionary
import InlineMarkup.Host.Path

/-!
The functions that build elements, by tag name. Tags without a function of their own are built by
name.
-/

set_option autoImplicit false

namespace InlineMarkup

def htmlElements : List (String × String) :=
  [("a", "anchor"), ("abbr", "abbreviation"), ("address", "address"), ("area", "area"),
    ("article", "article"), ("aside", "aside"), ("audio", "audio"), ("b", "bold"),
    ("bdi", "bidirectional_isolation"), ("bdo", "bidirectional_override"),
    ("blockquote", "block_quote"), ("body", "body"), ("br", "line_break"), ("button", "button"),
    ("canvas", "canvas"), ("caption", "caption"), ("cite", "citation"), ("code", "code"),
    ("col", "column"), ("colgroup", "column_group"), ("data", "data"), ("datalist", "data_list"),
    ("dd", "description"), ("del", "deleted_text"), ("details", "details"),
    ("dfn", "definition"), ("dialog", "dialog"), ("div", "div"), ("dl", "description_list"),
    ("dt", "definition_term"), ("em", "emphasis"), ("embed", "embed"), ("fieldset", "field_set"),
    ("figcaption", "figure_caption"), ("figure", "figure"), ("footer", "footer"),
    ("form", "form"), ("h1", "heading1"), ("h2", "heading2"), ("h3", "heading3"),
    ("h4", "heading4"), ("h5", "heading5"), ("h6", "heading6"), ("header", "header"),
    ("hgroup", "heading_group"), ("hr", "horizontal_rule"), ("i", "italic"),
    ("iframe", "inline_frame"), ("img", "image"), ("input", "input"), ("ins", "inserted_text"),
    ("kbd", "keyboard_input"), ("label", "label"), ("legend", "legend"), ("li", "list_item"),
    ("main", "main"), ("map", "map"), ("mark", "mark"), ("menu", "menu"), ("meter", "meter"),
    ("nav", "navigation"), ("noscript", "no_script"), ("object", "object"),
    ("ol", "ordered_list"), ("optgroup", "option_group"), ("option", "option"),
    ("output", "output"), ("p", "paragraph"), ("param", "parameter"), ("picture", "picture"),
    ("pre", "preformatted"), ("progress", "progress"), ("q", "inline_quote"),
    ("rp", "ruby_parenthesis"), ("rt", "ruby_text"), ("ruby", "ruby_annotation"),
    ("s", "strikethrough"), ("samp", "sample"), ("section", "section"), ("select", "select"),
    ("slot", "slot"), ("small", "small"), ("source", "source"), ("span", "span"),
    ("strong", "strong"), ("sub", "subscript"), ("summary", "summary"), ("sup", "superscript"),
    ("table", "table"), ("tbody", "table_body"), ("td", "table_data"), ("template", "template"),
    ("textarea", "text_area"), ("tfoot", "table_foot"), ("th", "table_header"),
    ("thead", "table_head"), ("time", "time"), ("tr", "table_row"), ("track", "track"),
    ("u", "underline"), ("ul", "unordered_list"), ("var", "variable"), ("video", "video"),
    ("wbr", "word_break_opportunity")]

structure TagTable where
  functions : Dictionary Host.Path := {}
  deriving Repr

namespace TagTable

def empty : TagTable := {}

def html (module : Host.Path) : TagTable :=
  ⟨⟨htmlElements.map fun (tag, function) => (tag.toList, module.push function.toList)⟩⟩

def get? (t : TagTable) (tag : List Char) : Option Host.Path :=
  t.functions.get? tag

/-- Puts a function under a tag name in lower case. -/
def insert (t : TagTable) (tag : List Char) (function : Host.Path) : TagTable :=
  ⟨t.functions.insert (Text.lower tag) function⟩

def replaced (t : TagTable) (tag : List Char) : Option Host.Path :=
  t.get? (Text.lower tag)

def removed (t : TagTable) (tag : List Char) : Option Host.Path :=
  t.get? tag

/-- Removes a tag by its name as given. -/
def erase (t : TagTable) (tag : List Char) : TagTable :=
  ⟨t.functions.erase tag⟩

def size (t : TagTable) : Nat :=
  t.functions.size

def isEmpty (t : TagTable) : Bool :=
  t.functions.isEmpty

end TagTable

end InlineMarkup
