import Brainfuck.Text.Path

/-!
# Samples

The programs that come with the tool.

## Main Definitions

* `samples` — the programs by name, in increasing byte order
* `sample?` — the program that a name reaches
-/

namespace Brainfuck

/-- Copies the input to the output. -/
def catSource : Bytes :=
  text "cat: copy input to output until end of input\n,[.,]\n"

/-- Writes Fibonacci numbers. -/
def fibSource : Bytes :=
  text "+++++>+.>+.<<[->>[-<+>>+<]<[->+>+<<]>[-<+>]>[-<+>]<<.>.<<]\n"

/-- Writes a greeting. -/
def helloSource : Bytes :=
  text "Hello World! (prints \"Hello World!\" and a newline)\n" ++
    text "++++++++[>++++[>++>+++>+++>+<<<<-]>+>+>->>+[<]<-]>>.>---.+++++++..+++.>>.<-.<.+++.---" ++
    text "---.--------.>>+.>++.\n"

/-- The sample programs by name. -/
def samples : List (Bytes × Bytes) :=
  [(text "cat", catSource), (text "fib", fibSource), (text "hello", helloSource)]

/-- The names of the sample programs in increasing byte order. -/
def sampleNames : List Bytes :=
  samples.map (·.1)

/-- The path of the sample with a name, below the directory of all samples. -/
def samplePath (name : Bytes) : Bytes :=
  Path.join (text "src") (name ++ text ".bf")

/-- The sample that a name reaches. The name is taken as a path, so that it may lead out of the
directory of the samples and back. -/
def sample? (name : Bytes) : Option Bytes :=
  (samples.find? fun s => samplePath s.1 == samplePath name).map (·.2)

end Brainfuck
