import ProtoStubs.TypeScript.Basic

/-!
The text of a module. Sections are divided by one blank line: the banner, the imports if there are
any, then the blocks.
-/

namespace ProtoStubs

def TypeExpr.text : TypeExpr String → String
  | .number => "number"
  | .boolean => "boolean"
  | .string => "string"
  | .named symbol => symbol
  | .array element => element.text ++ "[]"
  | .record value => "\x7b[key: string]: " ++ value.text ++ "\x7d"

/-- An opening line, one indented line for each entry, and a closing line. -/
def bracketed (opening : String) (entries : List String) (closing : String) : String :=
  "\n".intercalate (opening :: entries.map ("  " ++ ·) ++ [closing])

def Block.text : Block String → String
  | .enum name members =>
      bracketed ("export enum " ++ name ++ " \x7b")
        (members.map fun v => v ++ " = \"" ++ v ++ "\",") "\x7d"
  | .interface name fields =>
      bracketed ("export interface " ++ name ++ " \x7b")
        (fields.map fun field => field.1 ++ ": " ++ field.2.text ++ ";") "\x7d"
  | .stub .client name route input output =>
      bracketed ("export function " ++ name ++ "(payload: " ++ input.text ++ "): Promise<" ++
          output.text ++ "> \x7b")
        ["return webapi<" ++ output.text ++ ">(\"" ++ route ++ "\", payload);"] "\x7d"
  | .stub .server name route input output =>
      bracketed ("export function " ++ name ++ "(app: Express, handler: (params: " ++ input.text ++
          ") => Promise<" ++ output.text ++ ">) \x7b")
        ["return webapi<" ++ input.text ++ ", " ++ output.text ++ ">(\"" ++ route ++
          "\", app, handler, \x7b method: \"POST\" \x7d);"] "\x7d"
  | .exports names => bracketed "export default \x7b" (names.map (· ++ ",")) "\x7d;"

def Import.text (i : Import) : String := i.origin ++ " as " ++ i.symbol

namespace Module

def banner (source : String) : String :=
  "\n".intercalate
    ["/**", " * This file is auto-generated by protoc-webapi-ts from " ++ source,
      " * Don't change manually", " */"]

def importLine (specifier : String) (types : List Import) : String :=
  "import \x7b " ++ ", ".intercalate (types.map Import.text) ++ " \x7d from \"" ++ specifier ++ "\";"

def importLines (m : Module) : List String :=
  m.imports.entries.map (fun e => importLine e.1 e.2) ++
    (if m.framework then ["import \x7b Express \x7d from \"express\";"] else []) ++
    (if m.helper = "" then [] else ["import webapi from \"" ++ m.helper ++ "\";"])

def sections (m : Module) : List String :=
  banner m.source ::
    ((if m.importLines.isEmpty then [] else ["\n".intercalate m.importLines]) ++
      m.blocks.map Block.text)

def text (m : Module) : String := "\n\n".intercalate m.sections

end Module

end ProtoStubs
